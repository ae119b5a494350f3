import AutonomousEngine.Absendung.Ausstieg
import AutonomousEngine.Idempotenz.Folgeversuch

/-!
# One approval, one execution

An approved order may be taken from the queue more than once.  So the order goes to
the broker under a key that its approval gives, and a broker that has the key denies
it a second time.  The run then takes over the order that is there.

The fallbacks of an exit go out under the follow-up key.  So the account holds two
orders of an approval at most, and each of them is sized by what its run believes of
the other one: that it is not there, that it was rejected, or that it has filled what
was polled last.  Where the belief is true when the broker takes an order, all the
runs together never fill more than was approved (`freigabe_einmal`).

It need not be true.  An answer may be lost, an order may fill after the last poll, and
an approval that is taken from the queue again knows nothing of the fallback of the
run before.  A blank approval gives no key at all.
-/

namespace Absendung

open Basis
open Gateway (Auftrag)
open Idempotenz (gekappt maxClientOrderIdLen nextAttempt nextAttempt_freigabe)

/-! ## The approved order -/

/-- A payload as it comes from the queue. -/
structure Freigegeben where
  approvalId : Option String
  userId : String
  symbol : String
  seite : Seite
  qty : Rat
  price : Rat

/-- The characters that `str.strip` takes away. -/
def istLeerraum (c : Char) : Bool :=
  let n := c.toNat
  (9 ≤ n && n ≤ 13) || (28 ≤ n && n ≤ 32) || (0x2000 ≤ n && n ≤ 0x200a) ||
    [0x85, 0xa0, 0x1680, 0x2028, 0x2029, 0x202f, 0x205f, 0x3000].contains n

def strip (s : String) : String :=
  String.ofList ((s.toList.dropWhile istLeerraum).reverse.dropWhile istLeerraum).reverse

def Freigegeben.approvalCid (x : Freigegeben) : String := strip (x.approvalId.getD "")

def Freigegeben.ersterSchluessel (x : Freigegeben) : String :=
  gekappt maxClientOrderIdLen ("hitl-" ++ x.approvalCid)

/-- The signal that the approval stands for.  Its context is a decision of its own, which
gives the key where the approval gives none. -/
def Freigegeben.signal (x : Freigegeben) (digest : String → String) (decisionId : String) :
    Signal where
  symbol := x.symbol
  seite := x.seite
  kontext :=
    { currentPrice := x.price
      positionQty := 0
      decisionId
      clientOrderId :=
        if x.approvalCid ≠ "" then x.ersterSchluessel
        else (Idempotenz.deriveClientOrderId digest decisionId "entry" 0).toOption.getD "" }
  suggestedQuantity := x.qty

/-! ## The run -/

def ablehnen : Lauf Bool := do
  dienst (.audit "rejected")
  return false

/-- The record of the approval, and the order run after it. -/
def ausfuehren (u : Umfeld) (equity : Rat) (x : Freigegeben) : Lauf Bool := do
  let decisionId ← frage .uuid4
  dienst (.audit "approved")
  let submitted ←
    executeTenantOrder u ⟨x.userId, equity⟩ (x.signal u.digest decisionId) .humanApproved
  if submitted then return true
  else
    dienst (.audit "iron_dome_rejected")
    return false

/-- Executes an approved order, with the equity that its tenant has. -/
def executeApprovedOrder (u : Umfeld) (equity : Rat) (x : Freigegeben) : Lauf Bool := do
  if ← dienst .freigabeUnterMaterialitaet then return false
  else if x.price ≤ 0 ∨ x.seite = .buy ∧ x.qty ≤ 0 then ablehnen
  else if ← dienst (.brokerZugangFuer x.userId) then ausfuehren u equity x
  else ablehnen

/-! ## What it asks -/

def Freigegeben.folgeSchluessel (x : Freigegeben) (digest : String → String) : String :=
  "retry-1-_" ++ digest x.ersterSchluessel

/-- One time that the approval is taken from the queue.  The settings may have changed
since the last time, but not the digest. -/
structure Entnahme (digest : String → String) where
  umfeld : Umfeld
  equity : Rat
  digest_eq : umfeld.digest = digest

def Freigegeben.lauf (x : Freigegeben) {digest : String → String} (d : Entnahme digest) :
    Program Frage Frage.Antwort (Except Ende Bool) :=
  (executeApprovedOrder d.umfeld d.equity x).run

def Freigegeben.rahmen (x : Freigegeben) {digest : String → String} (d : Entnahme digest) :
    Rahmen where
  seite := x.seite
  buyFirst := d.umfeld.displacementBuyFirst
  coid := some x.ersterSchluessel
  folge := some (x.folgeSchluessel digest)
  obergrenze := some x.qty

section

variable {digest : String → String} {x : Freigegeben}

theorem Freigegeben.ersterSchluessel_ne (x : Freigegeben) : x.ersterSchluessel ≠ "" := by
  intro h
  have hliste := congrArg String.toList h
  simp [ersterSchluessel, gekappt, maxClientOrderIdLen] at hliste

theorem Freigegeben.signal_clientOrderId (hcid : x.approvalCid ≠ "") (decisionId : String) :
    (x.signal digest decisionId).kontext.clientOrderId = x.ersterSchluessel :=
  if_pos hcid

theorem Freigegeben.rahmen_passt (hcid : x.approvalCid ≠ "") (hqty : 0 < x.qty)
    (d : Entnahme digest) (decisionId : String) :
    (x.rahmen d).Passt d.umfeld (x.signal d.umfeld.digest decisionId) .humanApproved where
  seite := rfl
  buyFirst := rfl
  coid c hc := by
    obtain rfl := Option.some.inj hc
    exact ⟨(Freigegeben.signal_clientOrderId hcid decisionId).symm, x.ersterSchluessel_ne⟩
  folge c hc := by
    obtain rfl := Option.some.inj hc
    rw [Freigegeben.signal_clientOrderId hcid]
    refine ⟨x.ersterSchluessel_ne, (nextAttempt_freigabe d.umfeld.ziffern _).trans ?_⟩
    rw [d.digest_eq]
    rfl
  obergrenze o ho := by
    obtain rfl := Option.some.inj ho
    exact ⟨rfl, (abs_of_pos hqty).symm, hqty⟩

/-- The run keeps to the protocol of its order run. -/
theorem executeApprovedOrder_follows (hcid : x.approvalCid ≠ "") (hqty : 0 < x.qty)
    (d : Entnahme digest) :
    (x.lauf d).Follows (Schritt (x.rahmen d)) (fun _ _ => True) {} := by
  have hablehnen : Meets (Schritt (x.rahmen d)) {} ablehnen (fun _ _ => True) fun _ _ => True := by
    rw [ablehnen, meets_bind]
    exact meets_dienst (fun _ => trivial) fun _ => trivial
  refine follows_run.mpr ?_
  rw [executeApprovedOrder, meets_bind]
  refine meets_dienst (fun unwesentlich => ?_) fun _ => trivial
  split
  next => exact trivial
  next =>
    split
    next => exact hablehnen
    next =>
      rw [meets_bind]
      refine meets_dienst (fun zugang => ?_) fun _ => trivial
      split
      next =>
        rw [ausfuehren, meets_bind]
        refine meets_still rfl fun decisionId => ?_
        rw [meets_bind]
        refine meets_dienst (fun _ => ?_) fun _ => trivial
        rw [meets_bind]
        have hpasst := Freigegeben.rahmen_passt hcid hqty d decisionId
        refine Meets.mono (executeTenantOrder_meets hpasst) (fun submitted y _ => ?_)
          fun _ _ _ => trivial
        split
        next => exact trivial
        next =>
          rw [meets_bind]
          exact meets_dienst (fun _ => trivial) fun _ => trivial
      next => exact hablehnen

end

/-! ## The runs -/

def SchluesselNeu (b : Buch) : Frage → Buch → Prop
  | .submitOrder _ r, b' => b' ≠ b → ∀ o ∈ b, ∀ c, o.clientOrderId = some c →
      r.form.clientOrderId ≠ some c
  | _, _ => True

/-- A moment of any number of runs of one approval. -/
abbrev Freigabekonf (digest : String → String) :=
  Pool Buch (Entnahme digest) (Verlauf × Program Frage Frage.Antwort (Except Ende Bool))
    (Verlauf × Except Ende Bool)

/-- The runs of an approval that is taken from the queue any number of times, one after
the other or side by side, at a broker that takes no key twice. -/
def freigabelaeufe (digest : String → String) (x : Freigegeben) :
    System (Freigabekonf digest) (PoolAct (Entnahme digest)) :=
  ((welt.machine x.lauf).pool Unberuehrt).restrict (guarded (World.questions SchluesselNeu))

def Buch.unter (b : Buch) (c : String) : Buch := b.filter fun o => o.clientOrderId = some c

/-- What a run counts on when the broker takes its order: the one under the other key of
the approval cannot have filled more in the end than the run has seen of it, and the
rest is not rounded up.  An order that is taken over was sent for the same purpose. -/
def Nachvollzogen (digest : String → String) (x : Freigegeben) (b : Buch) : Frage → Buch → Prop
  | .submitOrder (.auftrag _ _) _, b' => b' ≠ b →
      (b.unter (x.folgeSchluessel digest)).hoechstens ≤ 0
  | .submitOrder (.nachAblehnung _) _, b' => b' ≠ b → (b.unter x.ersterSchluessel).hoechstens ≤ 0
  | .submitOrder (.nachFrist q g) _, b' => b' ≠ b →
      (b.unter x.ersterSchluessel).hoechstens ≤ g ∧ runde 6 (q - g) ≤ q - g
  | .uebernommen z id, _ => ∀ o, b[id]? = some o → o.eigen = z.eigen
  | _, _ => True

/-! ## The invariant -/

/-- The orders of an approval have its keys and are covered by its quantity. -/
structure Einmalig (digest : String → String) (x : Freigegeben) (b : Buch) : Prop where
  schluessel : ∀ o ∈ b, o.eigen = true → o.clientOrderId = some x.ersterSchluessel ∨
    o.clientOrderId = some (x.folgeSchluessel digest)
  hoechstens : b.hoechstens ≤ x.qty

section

variable {digest : String → String} {x : Freigegeben} {b b' : Buch}

/-- Where all orders of the event have one key, only the orders under it count. -/
theorem Buch.hoechstens_unter {c : String}
    (h : ∀ o ∈ b, o.eigen = true → o.clientOrderId = some c) :
    (b.unter c).hoechstens = b.hoechstens := by
  induction b with
  | nil => rfl
  | cons o b ih =>
      have hrest := ih fun o' ho' => h o' (List.mem_cons_of_mem o ho')
      rw [Buch.hoechstens_cons, ← hrest]
      by_cases hkey : o.clientOrderId = some c
      · have hunter : Buch.unter (o :: b) c = o :: Buch.unter b c := by
          simp [Buch.unter, hkey]
        rw [hunter, Buch.hoechstens_cons]
      · have hunter : Buch.unter (o :: b) c = Buch.unter b c := by
          simp [Buch.unter, hkey]
        have hfremd : o.eigenHoechstens = 0 := by
          unfold Order.eigenHoechstens
          exact if_neg fun heigen => hkey (h o List.mem_cons_self heigen)
        rw [hunter, hfremd, zero_add]

theorem Buch.Platziert.ne {z : Zweck} {r : Auftrag} (h : b.Platziert z r b') : b' ≠ b := by
  obtain ⟨hpos, rfl⟩ := h
  simp

theorem Einmalig.weiter (h : Einmalig digest x b) (hb : b.Weiter b') : Einmalig digest x b' where
  schluessel o' ho' heigen := by
    obtain ⟨alt, neu, rfl, halt, hneu⟩ := hb
    rcases List.mem_append.mp ho' with ho' | ho'
    · obtain ⟨n, hn, rfl⟩ := List.mem_iff_getElem.mp ho'
      have hn' : n < b.length := halt.length_eq ▸ hn
      have hweiter : b[n].Weiter alt[n] := halt.get hn' hn
      rw [hweiter.clientOrderId]
      exact h.schluessel _ (List.getElem_mem hn') (hweiter.eigen ▸ heigen)
    · rw [Order.eigen, hneu o' ho'] at heigen
      cases heigen
  hoechstens := hb.hoechstens_le.trans h.hoechstens

/-- An order under one of the keys, with the most that the order under the other one can
have filled. -/
theorem Einmalig.platziert {z : Zweck} {r : Auftrag} {c c' : String} {g : Rat}
    (h : Einmalig digest x b) (hplatz : b.Platziert z r b') (hz : z.eigen = true)
    (hkey : r.form.clientOrderId = some c) (hneu : SchluesselNeu b (.submitOrder z r) b')
    (hpaar : c = x.ersterSchluessel ∧ c' = x.folgeSchluessel digest ∨
      c = x.folgeSchluessel digest ∧ c' = x.ersterSchluessel)
    (hg : (b.unter c').hoechstens ≤ g) (hr : g + r.qty ≤ x.qty) : Einmalig digest x b' := by
  have hander : ∀ o ∈ b, o.eigen = true → o.clientOrderId = some c' := by
    intro o ho heigen
    have hfrei : o.clientOrderId ≠ some c := fun hc => hneu hplatz.ne o ho c hc hkey
    rcases hpaar with ⟨rfl, rfl⟩ | ⟨rfl, rfl⟩
    · exact (h.schluessel o ho heigen).resolve_left hfrei
    · exact (h.schluessel o ho heigen).resolve_right hfrei
  refine ⟨fun o ho heigen => ?_, ?_⟩
  · obtain ⟨hpos, rfl⟩ := hplatz
    rcases List.mem_append.mp ho with ho | ho
    · exact h.schluessel o ho heigen
    · obtain rfl := List.mem_singleton.mp ho
      have hneu : (Order.neu z r hpos).clientOrderId = some c := hkey
      rcases hpaar with ⟨rfl, -⟩ | ⟨rfl, -⟩
      · exact .inl hneu
      · exact .inr hneu
  · rw [Buch.hoechstens_unter hander] at hg
    exact (hplatz.hoechstens_le hz).trans ((add_le_add hg le_rfl).trans hr)

theorem Einmalig.fremd {z : Zweck} {r : Auftrag} {a : Except Fremdfehler Nat}
    (h : Einmalig digest x b) (ha : b.antwortet (.submitOrder z r) a b') (hz : z.eigen = false) :
    Einmalig digest x b' := by
  rcases Buch.antwortet_submitOrder ha with rfl | hplatz
  · exact h
  · refine ⟨fun o ho heigen => ?_, (hplatz.hoechstens_eq hz).trans_le h.hoechstens⟩
    obtain ⟨hpos, rfl⟩ := hplatz
    rcases List.mem_append.mp ho with ho | ho
    · exact h.schluessel o ho heigen
    · obtain rfl := List.mem_singleton.mp ho
      have hz' : (Order.neu z r hpos).eigen = z.eigen := rfl
      rw [hz', hz] at heigen
      cases heigen

/-- Taking over an order for what it was sent for changes nothing of what counts. -/
theorem Buch.hoechstens_nimm {z : Zweck} {id : Nat}
    (hz : ∀ o, b[id]? = some o → o.eigen = z.eigen) : (b.nimm id z).hoechstens = b.hoechstens := by
  induction b generalizing id with
  | nil => simp [Buch.nimm]
  | cons o b ih =>
      cases id with
      | zero =>
          have heigen : Order.eigen { o with zweck := some z } = o.eigen := (hz o rfl).symm
          have hgleich : Order.eigenHoechstens { o with zweck := some z } = o.eigenHoechstens := by
            unfold Order.eigenHoechstens
            rw [heigen]
            rfl
          show Buch.hoechstens ({ o with zweck := some z } :: b) = _
          rw [Buch.hoechstens_cons, Buch.hoechstens_cons, hgleich]
      | succ id =>
          show Buch.hoechstens (o :: Buch.nimm b id z) = _
          rw [Buch.hoechstens_cons, Buch.hoechstens_cons, ih hz]

theorem Einmalig.nimm {z : Zweck} {id : Nat} (h : Einmalig digest x b)
    (hz : ∀ o, b[id]? = some o → o.eigen = z.eigen) : Einmalig digest x (b.nimm id z) := by
  refine ⟨fun o' ho' heigen => ?_, (Buch.hoechstens_nimm hz).trans_le h.hoechstens⟩
  obtain ⟨n, hn⟩ := List.mem_iff_getElem?.mp ho'
  rw [Buch.nimm, List.getElem?_modify, Option.map_eq_map, Option.map_eq_some_iff] at hn
  obtain ⟨o, ho, rfl⟩ := hn
  have hmem : o ∈ b := List.mem_of_getElem? ho
  by_cases hid : id = n
  · rw [if_pos hid] at heigen ⊢
    exact h.schluessel o hmem ((hz o (hid ▸ ho)).trans heigen)
  · rw [if_neg hid] at heigen ⊢
    exact h.schluessel o hmem heigen

theorem Einmalig.schritt {d : Entnahme digest} {w y : Zwischenstand} {i : Frage} {a : i.Antwort}
    (h : Einmalig digest x b) (hN : Schritt (x.rahmen d) w i a y) (ha : b.antwortet i a b')
    (hneu : SchluesselNeu b i b') (hG : Nachvollzogen digest x b i b') :
    Einmalig digest x b' := by
  have hgleich (hi : i.handelt = false) : Einmalig digest x b' := by
    rw [Buch.eq_of_antwortet hi ha]
    exact h
  cases hN with
  | still _ hi => exact hgleich (Frage.handelt_of_still hi)
  | auftrag _ _ _ _ hle _ hcoid hgrenze =>
      rcases Buch.antwortet_submitOrder ha with rfl | hplatz
      · exact h
      · refine h.platziert hplatz rfl (hcoid _ rfl) hneu (.inl ⟨rfl, rfl⟩) (hG hplatz.ne) ?_
        rw [zero_add]
        exact hle.trans (hgrenze _ rfl)
  | nachAblehnung _ _ _ _ hle hfolge hgrenze =>
      rcases Buch.antwortet_submitOrder ha with rfl | hplatz
      · exact h
      · refine h.platziert hplatz rfl (hfolge _ rfl) hneu (.inr ⟨rfl, rfl⟩) (hG hplatz.ne) ?_
        rw [zero_add]
        exact hle.trans (hgrenze _ rfl)
  | nachFrist _ _ _ _ _ _ _ hle hfolge hgrenze =>
      rcases Buch.antwortet_submitOrder ha with rfl | hplatz
      · exact h
      · obtain ⟨hseen, hrund⟩ := hG hplatz.ne
        refine h.platziert hplatz rfl (hfolge _ rfl) hneu (.inr ⟨rfl, rfl⟩) hseen ?_
        linarith [hgrenze _ rfl]
  | aufgeschoben => exact h.fremd ha rfl
  | verdraengung => exact h.fremd ha rfl
  | rueckkauf => exact h.fremd ha rfl
  | uebernommen => exact ha ▸ h.nimm hG
  | nachFristUebernommen => exact ha ▸ h.nimm hG
  | verdraengungUebernommen => exact ha ▸ h.nimm hG
  | rueckkaufUebernommen => exact ha ▸ h.nimm hG
  | _ => exact hgleich rfl

end

/-- An approval that is not blank, taken from the queue any number of times, never fills
more than was approved, as long as each order that the broker takes was sized by what
was true of the other one. -/
theorem freigabe_einmal {digest : String → String} {x : Freigegeben} (hcid : x.approvalCid ≠ "")
    (hqty : 0 < x.qty) {p : Freigabekonf digest}
    (h : ((freigabelaeufe digest x).restrict
      (guarded (World.questions (Nachvollzogen digest x)))).Reach p) :
    p.store.gefuellt ≤ x.qty := by
  have hbeide : (((welt.machine x.lauf).pool Unberuehrt).restrict
      (guarded (World.questions fun b i b' =>
        SchluesselNeu b i b' ∧ Nachvollzogen digest x b i b'))).Reach p := by
    refine h.of_restrict_restrict.restrict_mono fun p a p' _ _ hG => ?_
    cases a with
    | access c => exact fun j i next hj hi => ⟨hG.1 j i next hj hi, hG.2 j i next hj hi⟩
    | _ => trivial
  have hI := World.machine_sound (N := fun d => Schritt (x.rahmen d)) (x := fun _ => {})
    (R := fun _ _ _ => True) (I := Einmalig digest x)
    (fun d => executeApprovedOrder_follows hcid hqty d) (fun b hb => ?_) (fun hI hd => hI.weiter hd)
    (fun hI hN ha hG => hI.schritt hN ha hG.1 hG.2) hbeide
  · exact p.store.gefuellt_le_hoechstens.trans hI.1.1.hoechstens
  · refine ⟨fun o ho heigen => ?_, (Buch.hoechstens_eq_zero hb).trans_le hqty.le⟩
    rw [Order.eigen, hb o ho] at heigen
    cases heigen

/-! ## An example -/

theorem Freigegeben.folgeSchluessel_ne (x : Freigegeben) (digest : String → String) :
    x.folgeSchluessel digest ≠ x.ersterSchluessel := by
  intro h
  have hliste := congrArg String.toList h
  simp [folgeSchluessel, ersterSchluessel, gekappt, maxClientOrderIdLen] at hliste

theorem can_executeApprovedOrder {G : Buch → (i : Frage) → i.Antwort → Buch → Prop}
    {T : Buch → Verlauf → Prop} {b : Buch} {l : Verlauf} {Q : Bool → Buch → Verlauf → Prop}
    {E : Ende → Buch → Verlauf → Prop} {u : Umfeld} {equity : Rat} {x : Freigegeben}
    (hG : Offen G) (hpreis : 0 < x.price) (hqty : 0 < x.qty)
    (h : ∀ decisionId l', l ⊆ l' → welt.Can G T
      (executeTenantOrder u ⟨x.userId, equity⟩ (x.signal u.digest decisionId) .humanApproved)
      (fun _ _ _ => False) E b l') :
    welt.Can G T (executeApprovedOrder u equity x) Q E b l := by
  rw [executeApprovedOrder]
  refine World.can_bind (can_dienst hG false fun l₁ h₁ => ?_)
  have hgueltig : ¬(x.price ≤ 0 ∨ x.seite = .buy ∧ x.qty ≤ 0) := by
    rintro (hle | ⟨-, hle⟩)
    · exact absurd hpreis (not_lt.mpr hle)
    · exact absurd hqty (not_lt.mpr hle)
  rw [if_neg Bool.false_ne_true, if_neg hgueltig]
  refine World.can_bind (can_dienst hG true fun l₂ h₂ => ?_)
  rw [if_pos rfl, ausfuehren]
  refine World.can_bind (can_still hG rfl "d1" rfl fun l₃ h₃ => ?_)
  refine World.can_bind (can_dienst hG () fun l₄ h₄ => World.can_bind ?_)
  refine World.may_mono (h "d1" l₄ fun _ hm => h₄ (h₃ (h₂ (h₁ hm)))) fun r b l hr => ?_
  cases r with
  | ok submitted => exact hr.elim
  | error e => exact hr

def beispielFreigabe : Freigegeben where
  approvalId := some "a1"
  userId := "u1"
  symbol := "AAPL"
  seite := .sell
  qty := 10
  price := 100

def beispielEntnahme : Entnahme id := ⟨beispielUmfeld false, 100000, rfl⟩

/-- The sale goes to the broker, which raises, and then its fallback. -/
theorem can_beispielFreigabe {G : Buch → (i : Frage) → i.Antwort → Buch → Prop}
    {T : Buch → Prop} (hG : Offen G) (s : Option Nat)
    (hbestand : ∀ pos, G [] (.bestand "AAPL") (.ok pos) []) (hslot : G [] (.slotBelegen none) () [])
    (h : ∀ r, r.qty = 10 → r.form.clientOrderId = some beispielFreigabe.ersterSchluessel → ∃ b₁,
      Buch.antwortet [] (.submitOrder (.auftrag 10 true) r) (.error (.apiError s false)) b₁ ∧
      G [] (.submitOrder (.auftrag 10 true) r) (.error (.apiError s false)) b₁ ∧
      ∀ r', r'.qty = 10 →
        r'.form.clientOrderId = some (beispielFreigabe.folgeSchluessel id) → ∃ b₂ b₃,
        b₁.antwortet (.submitOrder (.nachAblehnung 10) r') (.ok b₁.length) b₂ ∧
        G b₁ (.submitOrder (.nachAblehnung 10) r') (.ok b₁.length) b₂ ∧ b₂.Weiter b₃ ∧ T b₃) :
    welt.Can G (fun b _ => T b) (executeApprovedOrder beispielEntnahme.umfeld
      beispielEntnahme.equity beispielFreigabe) (fun _ b _ => T b) (fun _ b _ => T b) [] [] := by
  have hcid : beispielFreigabe.approvalCid ≠ "" := by decide
  refine can_executeApprovedOrder hG (by norm_num [beispielFreigabe])
    (by norm_num [beispielFreigabe]) fun decisionId l₁ _ => ?_
  have hkey : (beispielFreigabe.signal beispielEntnahme.umfeld.digest
      decisionId).kontext.clientOrderId = beispielFreigabe.ersterSchluessel :=
    Freigegeben.signal_clientOrderId hcid decisionId
  have hne := beispielFreigabe.ersterSchluessel_ne
  refine can_ausstieg hG rfl rfl rfl (show "AAPL" ≠ "" by decide)
    (by norm_num [beispielFreigabe, Freigegeben.signal])
    ⟨10, 100⟩ 10 (by norm_num [freigegebeneMenge, beispielFreigabe, Freigegeben.signal])
    (by norm_num) (hbestand _) hslot s fun r hr hr₁ => ?_
  obtain ⟨b₁, ha₁, hG₁, hnach⟩ := h r hr ((hr₁ (hkey ▸ hne)).trans (congrArg some hkey))
  refine ⟨b₁, ha₁, hG₁, fun r' hr' hr₂ => ?_⟩
  have hfolge := hr₂ (beispielFreigabe.folgeSchluessel id) (hkey ▸ hne) <| by
    rw [hkey]
    exact nextAttempt_freigabe _ _
  obtain ⟨b₂, b₃, ha₂, hG₂, hd, hT⟩ := hnach r' hr' hfolge
  exact ⟨b₂, ha₂, hG₂, fun _ _ _ _ => ⟨b₃, hd, hT⟩⟩

theorem offen_schluesselNeu : Offen fun b i _ b' => SchluesselNeu b i b' := by
  intro b i a b' hi
  cases i with
  | submitOrder => cases hi
  | _ => exact trivial

/-- What may come about when it is taken from the queue once is reached. -/
theorem freigabelaeufe_reach {T : Buch → Prop} {H : Buch → Frage → Buch → Prop}
    (h : welt.Can (fun b i _ b' => SchluesselNeu b i b' ∧ H b i b') (fun b _ => T b)
      (executeApprovedOrder beispielEntnahme.umfeld beispielEntnahme.equity beispielFreigabe)
      (fun _ b _ => T b) (fun _ b _ => T b) [] []) :
    ∃ p, ((freigabelaeufe id beispielFreigabe).restrict
      (guarded (World.questions H))).Reach p ∧ T p.store := by
  have hleer : Unberuehrt [] := fun _ ho => absurd ho List.not_mem_nil
  obtain ⟨c, hc, hT⟩ := World.reach_of_can hleer h
  have hpool : (((welt.machine beispielFreigabe.lauf).pool Unberuehrt).restrict
      (guarded (World.questions fun b i b' => SchluesselNeu b i b' ∧ H b i b'))).Reach
      ⟨c.store, Function.update (fun _ => none) 0 (some ⟨beispielEntnahme, 0, (c.log, c.rest)⟩),
        []⟩ := by
    refine World.machine_of_run ?_ hc
    exact fun hG => hG
  refine ⟨_, (hpool.restrict_mono fun p a p' _ _ hG => ?_).restrict_restrict, hT⟩
  cases a with
  | access c =>
      exact ⟨fun j i next hj hi => (hG j i next hj hi).1,
        fun j i next hj hi => (hG j i next hj hi).2⟩
  | _ => exact ⟨trivial, trivial⟩

/-- The broker rejects the approved sale, and its fallback fills. -/
theorem freigabe_einmal_abgelehnt : ∃ p, ((freigabelaeufe id beispielFreigabe).restrict
    (guarded (World.questions (Nachvollzogen id beispielFreigabe)))).Reach p ∧
      p.store.gefuellt = beispielFreigabe.qty ∧ p.store.gefuellt ≤ beispielFreigabe.qty := by
  have hG : Offen fun b i _ b' =>
      SchluesselNeu b i b' ∧ Nachvollzogen id beispielFreigabe b i b' := by
    intro b i a b' hi
    cases i with
    | submitOrder => cases hi
    | uebernommen => cases hi
    | _ => exact ⟨trivial, trivial⟩
  obtain ⟨p, hp, hgefuellt⟩ := freigabelaeufe_reach (T := fun b => b.gefuellt = 10) <|
    can_beispielFreigabe hG (some 422) (fun _ => ⟨trivial, trivial⟩) ⟨trivial, trivial⟩
      fun r hr hkey => ⟨[], .inl rfl, ⟨fun hne => absurd rfl hne, fun hne => absurd rfl hne⟩,
        fun r' hr' hkey' => by
          have hpos : 0 < r'.qty := by rw [hr']; norm_num
          refine ⟨_, _, ⟨⟨hpos, rfl⟩, rfl⟩,
            ⟨fun _ o ho => absurd ho List.not_mem_nil, fun _ => le_rfl⟩,
            Buch.weiter_map _ Order.weiter_ausgefuehrt, ?_⟩
          norm_num [Buch.gefuellt, Order.eigenGefuellt, Order.eigen, Order.ausgefuehrt, Order.neu,
            Zweck.eigen, hr']⟩
  exact ⟨p, hp, hgefuellt, freigabe_einmal (by decide) (by norm_num [beispielFreigabe]) hp⟩

/-- The answer to the approved sale is lost, and the sale and its fallback both fill. -/
theorem freigabe_doppelt : ∃ p, (freigabelaeufe id beispielFreigabe).Reach p ∧
    beispielFreigabe.qty < p.store.gefuellt := by
  have hG : Offen fun b i _ b' => SchluesselNeu b i b' ∧ True := fun b i a b' hi =>
    ⟨offen_schluesselNeu b i a b' hi, trivial⟩
  obtain ⟨p, hp, hgefuellt⟩ := freigabelaeufe_reach (T := fun b => 10 < b.gefuellt)
    (H := fun _ _ _ => True) <|
    can_beispielFreigabe hG (some 504) (fun _ => ⟨trivial, trivial⟩) ⟨trivial, trivial⟩
      fun r hr hkey => by
        have hpos : 0 < r.qty := by rw [hr]; norm_num
        refine ⟨_, .inr ⟨hpos, rfl⟩, ⟨fun _ o ho => absurd ho List.not_mem_nil, trivial⟩,
          fun r' hr' hkey' => ?_⟩
        have hpos' : 0 < r'.qty := by rw [hr']; norm_num
        refine ⟨_, _, ⟨⟨hpos', rfl⟩, rfl⟩, ⟨fun _ o ho c hc => ?_, trivial⟩,
          Buch.weiter_map _ Order.weiter_ausgefuehrt, ?_⟩
        · -- the fallback has a key of its own
          obtain rfl := List.mem_singleton.mp ho
          obtain rfl := Option.some.inj (hkey.symm.trans hc)
          rw [hkey']
          exact fun heq => beispielFreigabe.folgeSchluessel_ne id (Option.some.inj heq)
        · norm_num [Buch.gefuellt, Order.eigenGefuellt, Order.eigen, Order.ausgefuehrt, Order.neu,
            Zweck.eigen, hr, hr']
  exact ⟨p, hp.of_restrict, hgefuellt⟩

end Absendung
