import AutonomousEngine.Absendung.Ausstieg

/-!
# Displacements and their purchases

With `displacementBuyFirst` the displaced position is sold after the purchase.
The run sells only after a purchase that the broker has accepted, and takes the
acceptance for the confirmation.  Where an accepted purchase fills before the run
looks at the halt, the position is sold only for a purchase that has filled
(`verkauf_nach_kauf`).

Without it the position is sold first, and bought back if the purchase fails.
What is bought back is what the broker names as filled, and where it names
nothing the whole sale (`rueckkauf_treu`).
-/

namespace Absendung

open Basis
open Gateway (Auftrag)
open Verkauf (Quelle)

/-! ## The purchase first -/

/-- Whether an order sells the displaced position. -/
def Zweck.verkauftAlt : Zweck → Bool
  | .verdraengung _ => true
  | .aufgeschoben => true
  | _ => false

/-- Whether an order of the event has filled, and as much of its size as counts. -/
def Buch.Gekauft (mindest : Rat → Rat) (b : Buch) : Prop :=
  ∃ o ∈ b, o.eigen = true ∧ 0 < o.filledQty ∧ mindest o.qty ≤ o.filledQty

section

variable {mindest : Rat → Rat} {b b' : Buch}

theorem Buch.Gekauft.weiter (h : b.Gekauft mindest) (hw : b.Weiter b') : b'.Gekauft mindest := by
  obtain ⟨o, ho, heigen, hpos, hmin⟩ := h
  obtain ⟨o', ho', how⟩ := hw.mem ho
  refine ⟨o', ho', how.eigen.trans heigen, hpos.trans_le how.filledQty, ?_⟩
  rw [how.qty]
  exact hmin.trans how.filledQty

theorem Buch.Gekauft.submitOrder (h : b.Gekauft mindest) {z : Zweck} {r : Auftrag}
    {a : Except Fremdfehler Nat} (ha : b.antwortet (.submitOrder z r) a b') :
    b'.Gekauft mindest := by
  obtain ⟨o, ho, hrest⟩ := h
  rcases Buch.antwortet_submitOrder ha with rfl | hplatz
  · exact ⟨o, ho, hrest⟩
  · exact ⟨o, hplatz.mem ho, hrest⟩

theorem Buch.Gekauft.nimm (h : b.Gekauft mindest) {id : Nat} {z : Zweck} (hz : z.eigen = true) :
    (b.nimm id z).Gekauft mindest := by
  obtain ⟨o, ho, heigen, hrest⟩ := h
  obtain ⟨id', hid'⟩ := List.mem_iff_getElem?.mp ho
  rcases Buch.getElem?_nimm (z := z) hid' with ho' | ho'
  · exact ⟨o, List.mem_of_getElem? ho', heigen, hrest⟩
  · exact ⟨_, List.mem_of_getElem? ho', hz, hrest⟩

/-- Whether the broker has an order of the event. -/
def Buch.Angenommen (b : Buch) : Prop := ∃ o ∈ b, o.eigen = true

/-- A purchase that the broker has accepted has filled by the time the run finds the
halt off. -/
def Bestaetigt (mindest : Rat → Rat) (b : Buch) : (i : Frage) → i.Antwort → Buch → Prop
  | .istHalted .vorAufgeschoben, halted, _ => halted = false → b.Angenommen → b.Gekauft mindest
  | _, _, _ => True

/-- No sale of the displaced position without a purchase that has filled.  An order
that the run has is at the broker, and one that it has found is there to take over. -/
structure Zuerst (mindest : Rat → Rat) (x : Zwischenstand) (b : Buch) (l : Verlauf) : Prop where
  tausch : x.tausch = .keiner
  da : ∀ id, x.eigen = .da id → b.Angenommen
  gefunden : ∀ z f id, x.eigen = .gefunden z f id → ∃ o, b[id]? = some o
  versuch : ∀ z f, x.eigen.versuch = some (z, f) → z.eigen = true
  frei : x.frei = true → b.Gekauft mindest
  verkauft : ∀ z r a, ⟨.submitOrder z r, a⟩ ∈ l → z.verkauftAlt = true → b.Gekauft mindest

theorem Buch.Angenommen.weiter (h : b.Angenommen) (hw : b.Weiter b') : b'.Angenommen := by
  obtain ⟨o, ho, heigen⟩ := h
  obtain ⟨o', ho', how⟩ := hw.mem ho
  exact ⟨o', ho', how.eigen.trans heigen⟩

theorem Buch.Angenommen.submitOrder (h : b.Angenommen) {z : Zweck} {r : Auftrag}
    {a : Except Fremdfehler Nat} (ha : b.antwortet (.submitOrder z r) a b') : b'.Angenommen := by
  obtain ⟨o, ho, heigen⟩ := h
  rcases Buch.antwortet_submitOrder ha with rfl | hplatz
  · exact ⟨o, ho, heigen⟩
  · exact ⟨o, hplatz.mem ho, heigen⟩

/-- An accepted submission is at the broker. -/
theorem Buch.angenommen_of_ok {z : Zweck} {r : Auftrag} {id : Nat} (hz : z.eigen = true)
    (ha : b.antwortet (.submitOrder z r) (.ok id) b') : b'.Angenommen := by
  obtain ⟨⟨hr, rfl⟩, -⟩ := ha
  refine ⟨_, List.mem_append_right _ (List.mem_singleton.mpr rfl), ?_⟩
  simp [Order.neu, Order.eigen, hz]

/-- So is an order that is taken over. -/
theorem Buch.angenommen_nimm {z : Zweck} {id : Nat} {o : Order} (hz : z.eigen = true)
    (ho : b[id]? = some o) : (b.nimm id z).Angenommen := by
  refine ⟨{ o with zweck := some z }, List.mem_of_getElem? (i := id) ?_, ?_⟩
  · simp [Buch.nimm, ho]
  · simp [Order.eigen, hz]

theorem Buch.Angenommen.nimm (h : b.Angenommen) {id : Nat} {z : Zweck} (hz : z.eigen = true) :
    (b.nimm id z).Angenommen := by
  obtain ⟨o, ho, heigen⟩ := h
  obtain ⟨id', hid'⟩ := List.mem_iff_getElem?.mp ho
  rcases Buch.getElem?_nimm (z := z) hid' with ho' | ho'
  · exact ⟨o, List.mem_of_getElem? ho', heigen⟩
  · exact ⟨_, List.mem_of_getElem? ho', hz⟩

theorem Zuerst.weiter {x : Zwischenstand} {l : Verlauf} (h : Zuerst mindest x b l)
    (hw : b.Weiter b') : Zuerst mindest x b' l where
  tausch := h.tausch
  da id hid := (h.da id hid).weiter hw
  gefunden z f id hid := by
    obtain ⟨o, ho⟩ := h.gefunden z f id hid
    obtain ⟨o', ho', -⟩ := hw.getElem? ho
    exact ⟨o', ho'⟩
  versuch := h.versuch
  frei hf := (h.frei hf).weiter hw
  verkauft z r a hmem hz := (h.verkauft z r a hmem hz).weiter hw

/-- A step that is not about the displaced position. -/
theorem Zuerst.gleich {x y : Zwischenstand} {l : Verlauf} {i : Frage} {a : i.Antwort}
    (h : Zuerst mindest x b l) (hb : b.Gekauft mindest → b'.Gekauft mindest)
    (htausch : y.tausch = x.tausch) (hda : ∀ id, y.eigen = .da id → b'.Angenommen)
    (hgefunden : ∀ z f id, y.eigen = .gefunden z f id → ∃ o, b'[id]? = some o)
    (hversuch : ∀ z f, y.eigen.versuch = some (z, f) → z.eigen = true) (hfrei : y.frei = x.frei)
    (hi : ∀ z r, i = .submitOrder z r → z.verkauftAlt = false) :
    Zuerst mindest y b' (l ++ [⟨i, a⟩]) where
  tausch := htausch.trans h.tausch
  da := hda
  gefunden := hgefunden
  versuch := hversuch
  frei hf := hb (h.frei (hfrei ▸ hf))
  verkauft z r a' hmem hz := by
    rcases List.mem_append.mp hmem with hmem | hmem
    · exact hb (h.verkauft z r a' hmem hz)
    · have hneu := hi z r (Sigma.mk.inj (List.mem_singleton.mp hmem)).1.symm
      rw [hneu] at hz
      cases hz

/-- An attempt on the order of the event, which the broker accepts or not. -/
theorem Zuerst.versuche {x y : Zwischenstand} {l : Verlauf} {z : Zweck} {r : Auftrag}
    {a : Except Fremdfehler Nat} (h : Zuerst mindest x b l) (hz : z.eigen = true)
    (hz' : z.verkauftAlt = false) (ha : b.antwortet (.submitOrder z r) a b')
    (htausch : y.tausch = x.tausch) (heigen : y.eigen = .nach z r a) (hfrei : y.frei = x.frei) :
    Zuerst mindest y b' (l ++ [⟨.submitOrder z r, a⟩]) := by
  refine h.gleich (fun hb => hb.submitOrder ha) htausch (fun id hid => ?_) (fun z' f id hid => ?_)
    (fun z' f hf => ?_) hfrei fun z' r' he => ?_
  · cases a with
    | ok id' => exact Buch.angenommen_of_ok hz ha
    | error f =>
        rw [heigen, Eigen.nach] at hid
        split at hid <;> cases hid
  · rw [heigen] at hid
    cases a with
    | ok id' => cases hid
    | error f =>
        rw [Eigen.nach] at hid
        split at hid <;> cases hid
  · rw [heigen] at hf
    obtain ⟨rfl, -⟩ := Eigen.versuch_nach hf
    exact hz
  · obtain ⟨rfl, -⟩ := Frage.submitOrder.inj he
    exact hz'

theorem Zuerst.schritt {k : Rahmen} {x y : Zwischenstand} {l : Verlauf} {i : Frage} {a : i.Antwort}
    (hk : k.buyFirst = true) (h : Zuerst mindest x b l) (hN : Schritt k x i a y)
    (ha : b.antwortet i a b') (hG : Bestaetigt mindest b i a b') :
    Zuerst mindest y b' (l ++ [⟨i, a⟩]) := by
  have hgleich {y' : Zwischenstand} (hi : i.handelt = false) (htausch : y'.tausch = x.tausch)
      (heigen : y'.eigen = x.eigen) (hfrei : y'.frei = x.frei) :
      Zuerst mindest y' b' (l ++ [⟨i, a⟩]) := by
    obtain rfl := Buch.eq_of_antwortet hi ha
    refine h.gleich id htausch (heigen ▸ h.da) (heigen ▸ h.gefunden) (heigen ▸ h.versuch) hfrei
      fun z r he => ?_
    rw [he] at hi
    cases hi
  have hkeiner {t : Tausch} (ht : x.tausch = t) (hne : t ≠ .keiner) :
      Zuerst mindest y b' (l ++ [⟨i, a⟩]) := absurd (ht.symm.trans h.tausch) hne
  cases hN with
  | still _ hi => exact hgleich (Frage.handelt_of_still hi) rfl rfl rfl
  | auftrag _ _ _ _ _ _ _ _ => exact h.versuche rfl rfl ha rfl rfl rfl
  | nachAblehnung _ _ _ _ _ _ _ => exact h.versuche rfl rfl ha rfl rfl rfl
  | schatten =>
      obtain rfl := Buch.eq_of_antwortet rfl ha
      exact h.gleich id rfl nofun nofun nofun rfl fun _ _ he => by cases he
  | @nachgeschlagen _ z f coid symbol answer heigen =>
      have hz := h.versuch z f (by rw [heigen]; rfl)
      obtain ⟨rfl, hfund⟩ := ha
      refine h.gleich id rfl (fun id hid => ?_) (fun z' f' id hid => ?_) (fun z' f' hz' => ?_) rfl
        fun _ _ he => by cases he
      · cases hf : fund symbol answer <;> simp [hf, Eigen.nachgeschlagen] at hid
      · cases hf : fund symbol answer with
        | none => simp [hf, Eigen.nachgeschlagen] at hid
        | some id' =>
            obtain ⟨-, -, rfl⟩ : z = z' ∧ f = f' ∧ id' = id := by
              simpa [hf, Eigen.nachgeschlagen] using hid
            obtain ⟨g, rfl, rfl⟩ := fund_eq_some hf
            obtain ⟨o, ho, -⟩ := hfund g rfl
            exact ⟨o, ho⟩
      · rw [Eigen.versuch_nachgeschlagen] at hz'
        obtain ⟨rfl, rfl⟩ := Prod.mk.inj (Option.some.inj hz')
        exact hz
  | @uebernommen _ z f id heigen =>
      have hz := h.versuch z f (by rw [heigen]; rfl)
      have hb' : b' = b.nimm id z := ha
      obtain ⟨o, ho⟩ := h.gefunden z f id heigen
      exact h.gleich (fun hb => hb' ▸ hb.nimm hz) rfl (fun _ _ => hb' ▸ Buch.angenommen_nimm hz ho)
        nofun nofun rfl fun _ _ he => by cases he
  | nachFrist _ _ hda =>
      exact h.gleich (fun hb => hb.submitOrder ha) rfl (fun id hid => (h.da id hid).submitOrder ha)
        (fun z f id hid => by rw [hda] at hid; cases hid) h.versuch rfl
        fun z r he => by cases he; rfl
  | @nachFristUebernommen _ q g id =>
      have hb' : b' = b.nimm id (.nachFrist q g) := ha
      refine h.gleich (fun hb => hb' ▸ hb.nimm rfl) rfl (fun id' hid => ?_) (fun z f id' hid => ?_)
        h.versuch rfl fun _ _ he => by cases he
      · exact hb' ▸ (h.da id' hid).nimm rfl
      · obtain ⟨o, ho⟩ := h.gefunden z f id' hid
        rw [hb']
        exact (Buch.getElem?_nimm ho).elim (fun ho => ⟨_, ho⟩) fun ho => ⟨_, ho⟩
  | haltAufgeschoben halted hda =>
      have hb' : b' = b := ha
      subst hb'
      refine ⟨h.tausch, h.da, h.gefunden, h.versuch, fun hf => hG (by simpa using hf) (h.da _ hda),
        fun z r a' hmem hz => ?_⟩
      rcases List.mem_append.mp hmem with hmem | hmem
      · exact h.verkauft z r a' hmem hz
      · cases (Sigma.mk.inj (List.mem_singleton.mp hmem)).1
  | aufgeschoben _ _ hfrei =>
      have hb := (h.frei hfrei).submitOrder ha
      exact ⟨h.tausch, fun id hid => (h.da id hid).submitOrder ha,
        fun z f id hid => (h.gefunden z f id hid).imp fun _ ho => Buch.getElem?_submitOrder ha ho,
        h.versuch, fun _ => hb, fun _ _ _ _ _ => hb⟩
  | verdraengung _ hfirst =>
      rw [hk] at hfirst
      cases hfirst
  | verdraengungUebernommen ht => exact hkeiner ht nofun
  | verdraengungStorno _ ht => exact hkeiner ht nofun
  | verdraengungAbfrage _ ht => exact hkeiner ht nofun
  | rueckkauf _ ht =>
      rw [h.tausch] at ht
      cases ht
  | rueckkaufUebernommen ht => exact hkeiner ht nofun
  | _ => exact hgleich rfl rfl rfl rfl

end

/-- With the purchase first, a run whose accepted purchase has filled by the time the
halt is found off sells the displaced position only for a purchase that has filled. -/
theorem verkauf_nach_kauf {u : Umfeld} (hfirst : u.displacementBuyFirst = true) {tenant : Tenant}
    {event : Signal} {source : Quelle} {mindest : Rat → Rat}
    {c : Conf Buch Frage Frage.Antwort (Except Ende Bool)}
    (h : ((mandantenlauf u tenant event source).restrict
      (World.answers (Bestaetigt mindest))).Reach c)
    {z : Zweck} {r : Auftrag} {a : Except Fremdfehler Nat} (hl : ⟨.submitOrder z r, a⟩ ∈ c.log)
    (hz : z.verkauftAlt = true) : c.store.Gekauft mindest := by
  have h0 : ∀ b, Unberuehrt b → Zuerst mindest {} b [] := fun _ _ =>
    ⟨rfl, nofun, nofun, nofun, nofun, fun _ _ _ hmem => absurd hmem List.not_mem_nil⟩
  obtain ⟨x, hx, -⟩ := World.sound (I := Zuerst mindest) h0
    (fun hI hd => hI.weiter hd) (fun hI hN ha hG => hI.schritt hfirst hN ha hG)
    (executeTenantOrder_follows (rahmen_passt u event source) tenant) h
  exact hx.verkauft z r a hl hz

/-- A purchase is accepted, and the displaced position is sold. -/
theorem can_danach {G : Buch → (i : Frage) → i.Antwort → Buch → Prop} {T : Buch → Verlauf → Prop}
    {b : Buch} {l : Verlauf} {u : Umfeld} {tenant : Tenant} {event : Signal} {source : Quelle}
    {Q : Bool → Buch → Verlauf → Prop} {E : Ende → Buch → Verlauf → Prop} (symbol : String)
    (oldPos : Position) (account : Konto) (size : Rat) (hG : Offen G)
    (hschatten : u.shadowMode = false) (hfirst : u.displacementBuyFirst = true)
    (hseite : event.seite = .buy) (hsymbol : event.symbol ≠ "")
    (hpreis : 0 < event.kontext.currentPrice) (hsize : 0 < size)
    (hpos : 0 < freigegebeneMenge event source size) (hne : symbol ≠ "") (hold : 0 < oldPos.qty)
    (hmult : account.multiplier = 1)
    (hbp : size * event.kontext.currentPrice ≤ account.buyingPower)
    (hslot : G b (.slotBelegen none) () b)
    (h : ∀ z r, z.eigen = true → 0 < r.qty → ∃ b₁ b₂,
      b.antwortet (.submitOrder z r) (.ok b.length) b₁ ∧ G b (.submitOrder z r) (.ok b.length) b₁ ∧
      b₁.Weiter b₂ ∧ G b₂ (.istHalted .vorAufgeschoben) false b₂ ∧
      ∀ r', 0 < r'.qty → ∃ b₃, b₂.antwortet (.submitOrder .aufgeschoben r') (.ok b₂.length) b₃ ∧
        G b₂ (.submitOrder .aufgeschoben r') (.ok b₂.length) b₃ ∧
        ∀ l', ⟨.submitOrder .aufgeschoben r', .ok b₂.length⟩ ∈ l' → T b₃ l') :
    welt.Can G T (executeTenantOrder u tenant event source) Q E b l := by
  refine can_executeTenantOrder hG fun l₁ _ => ?_
  refine can_vorlauf_danach hG hseite hfirst hpreis hsize hpos hne hold hmult hbp hslot fun l₂ _ => ?_
  rw [abgang]
  refine World.can_bind (can_schrittMandantAuftrag hG fun req l₃ _ hqty hexit _ => ?_)
  have hexit' : istLimitExit event.seite req = false := by
    rw [hexit, hseite]
    rfl
  rw [hschatten]
  refine World.can_bind (World.can_bind ?_)
  rw [hexit']
  refine can_exceptApiError (can_submitWithMarketFailsafe hG hqty hpos hsymbol (.ok b.length) (by simp)
    fun r hr => ?_)
  obtain ⟨b₁, b₂, ha₁, hG₁, hd, hhalt, hnach⟩ :=
    h (.auftrag (freigegebeneMenge event source size) false) r rfl
    (hr ▸ hpos)
  refine ⟨b₁, ha₁, hG₁, fun l₄ _ _ => World.can_bind (can_exceptException ?_)⟩
  have hsome : (some symbol).isSome = true := rfl
  dsimp only
  rw [if_pos hsome]
  refine World.can_bind (World.can_drift hd (World.can_bind ?_))
  refine can_frage false rfl hhalt fun l₅ _ _ => World.can_pure ?_
  refine can_verkaufeAufgeschoben hG rfl hne hold fun r' hr' => ?_
  obtain ⟨b₃, ha₃, hG₃, hT⟩ := hnach r' (hr' ▸ hold)
  exact ⟨b₃, ha₃, hG₃, fun l' _ hmem => hT l' hmem⟩

/-- A purchase that fills at once, after which the displaced position is sold. -/
theorem verkauf_nach_kauf_gefuellt : ∃ c : Conf Buch Frage Frage.Antwort (Except Ende Bool),
    (∃ r a, ⟨.submitOrder .aufgeschoben r, a⟩ ∈ c.log) ∧ c.store.Gekauft id := by
  have hG : Offen (Bestaetigt id) := fun _ i _ _ hi => by
    cases i with
    | istHalted ort =>
      cases ort with
      | vorAufgeschoben => cases hi
      | _ => exact trivial
    | _ => exact trivial
  have hcan : welt.Can (Bestaetigt id) (fun _ l => ∃ r a, ⟨.submitOrder .aufgeschoben r, a⟩ ∈ l)
      (executeTenantOrder (beispielUmfeld true) beispielTenant (beispielSignal .buy) .ai)
      (fun _ _ l => ∃ r a, ⟨.submitOrder .aufgeschoben r, a⟩ ∈ l)
      (fun _ _ l => ∃ r a, ⟨.submitOrder .aufgeschoben r, a⟩ ∈ l) [] [] := by
    refine can_danach "MSFT" ⟨5, 100⟩ ⟨1000, 1⟩ 10 hG rfl rfl rfl (by decide)
      (by norm_num [beispielSignal]) (by norm_num)
      (by norm_num) (by decide) (by norm_num) rfl
      (by norm_num [beispielSignal]) trivial fun z r hz hr => ?_
    refine ⟨_, _, ⟨⟨hr, rfl⟩, rfl⟩, trivial, Buch.weiter_map _ Order.weiter_ausgefuehrt,
      fun _ _ => ?_,
      fun r' hr' => ⟨_, ⟨⟨hr', rfl⟩, rfl⟩, trivial, fun l' hmem => ⟨r', _, hmem⟩⟩⟩
    exact ⟨_, List.mem_map_of_mem (List.mem_singleton.mpr rfl),
      by simp [Order.neu, Order.ausgefuehrt, Order.eigen, hz], hr, le_rfl⟩
  obtain ⟨c, hc, r, a, hmem⟩ := mandantenlauf_reach hcan
  exact ⟨c, ⟨r, a, hmem⟩, verkauf_nach_kauf rfl hc hmem rfl⟩

/-- The displaced position is sold for a purchase of which nothing is filled. -/
theorem verkauf_vor_kauf : ∃ c, (mandantenlauf (beispielUmfeld true) beispielTenant
    (beispielSignal .buy) .ai).Reach c ∧ (∃ r id, ⟨.submitOrder .aufgeschoben r, .ok id⟩ ∈ c.log) ∧
      ∀ o ∈ c.store, o.eigen = true → o.filledQty = 0 := by
  refine mandantenlauf_reach_frei (T := fun b l =>
    (∃ r id, ⟨.submitOrder .aufgeschoben r, .ok id⟩ ∈ l) ∧
      ∀ o ∈ b, o.eigen = true → o.filledQty = 0) ?_
  refine can_danach "MSFT" ⟨5, 100⟩ ⟨1000, 1⟩ 10 offen_true rfl rfl rfl (by decide)
      (by norm_num [beispielSignal]) (by norm_num)
    (by norm_num) (by decide) (by norm_num) rfl
    (by norm_num [beispielSignal]) trivial fun z r hz hr => ?_
  refine ⟨_, _, ⟨⟨hr, rfl⟩, rfl⟩, trivial, Buch.weiter_map _ Order.Weiter.refl, trivial,
    fun r' hr' => ⟨_, ⟨⟨hr', rfl⟩, rfl⟩, trivial, fun l' hmem => ⟨⟨r', _, hmem⟩, ?_⟩⟩⟩
  simp [Order.neu, Order.eigen]

/-! ## The sale first -/

/-- What the sale has come to: its order, its size, and its fill as far as the broker
has named it. -/
def Tausch.stand : Tausch → Option (Nat × Rat × Option Rat)
  | .verkauft id groesse => some (id, groesse, none)
  | .gefragt id groesse gefuellt => some (id, groesse, gefuellt)
  | .gekauft id groesse gefuellt _ => some (id, groesse, gefuellt)
  | _ => none

theorem Tausch.stand_of_ruecknahme {t : Tausch} {s : Nat × Rat × Option Rat}
    (h : t.ruecknahme = some s) : t.stand = some s ∧ ∀ id q m menge, t ≠ .gekauft id q m menge := by
  cases t with
  | verkauft id q => exact ⟨h, nofun⟩
  | gefragt id q m => exact ⟨h, nofun⟩
  | _ => cases h

/-- Whether an order is the sale of the displaced position, of a size. -/
def Verkauft (l : Verlauf) (id : Nat) (q : Rat) : Prop :=
  (∃ r, ⟨.submitOrder (.verdraengung q) r, .ok id⟩ ∈ l) ∨ ⟨.uebernommen (.verdraengung q) id, ()⟩ ∈ l

/-- Whether the broker has named the fill of a sale. -/
def Genannt (l : Verlauf) (id : Nat) (q g : Rat) : Prop :=
  ∃ st, ⟨.getOrderById (.verdraengung q) id, .ok (some st)⟩ ∈ l ∧ liesWert st.filledQty = some g

theorem Verkauft.mono {l : Verlauf} {id : Nat} {q : Rat} (h : Verkauft l id q) (l' : Verlauf) :
    Verkauft (l ++ l') id q := by
  rcases h with ⟨r, hr⟩ | hid
  · exact .inl ⟨r, List.mem_append_left _ hr⟩
  · exact .inr (List.mem_append_left _ hid)

theorem genannt_append {l : Verlauf} {i : Frage} {a : i.Antwort} {id : Nat} {q g : Rat} :
    Genannt (l ++ [⟨i, a⟩]) id q g ↔ Genannt l id q g ∨
      ∃ st, (⟨.getOrderById (.verdraengung q) id, .ok (some st)⟩ : Σ i : Frage, i.Antwort) = ⟨i, a⟩ ∧
        liesWert st.filledQty = some g := by
  simp only [Genannt, List.mem_append, List.mem_singleton, or_and_right, exists_or]

/-- What was shown of an order: its fill was at least that, and an order that had
ended is as it was shown. -/
structure Orderstand.Zeigte (st : Orderstand) (o : Order) : Prop where
  gefuellt : ∀ g, liesWert st.filledQty = some g → g ≤ o.filledQty
  beendet : st.status ≠ .andere → o.offen = false ∧
    ∀ g, liesWert st.filledQty = some g → o.filledQty = g

theorem Orderstand.Zeigt.filledQty_eq {st : Orderstand} {o : Order} (h : st.Zeigt o) {g : Rat}
    (hg : liesWert st.filledQty = some g) : o.filledQty = g := by
  cases hwert : st.filledQty with
  | fehlt =>
      rw [hwert] at hg
      exact (h.fehlt hwert).trans (Option.some.inj hg)
  | zahl x =>
      rw [hwert] at hg
      exact (h.zahl x hwert).trans (Option.some.inj hg)
  | unlesbar =>
      rw [hwert] at hg
      cases hg

theorem Orderstand.Zeigt.zeigte {st : Orderstand} {o : Order} (h : st.Zeigt o) : st.Zeigte o :=
  ⟨fun _ hg => (h.filledQty_eq hg).ge, fun hst => ⟨h.beendet hst, fun _ hg => h.filledQty_eq hg⟩⟩

theorem Orderstand.Zeigte.weiter {st : Orderstand} {o o' : Order} (h : st.Zeigte o)
    (hw : o.Weiter o') : st.Zeigte o' where
  gefuellt g hg := (h.gefuellt g hg).trans hw.filledQty
  beendet hst := by
    obtain ⟨hoffen, hfilled⟩ := hw.beendet (h.beendet hst).1
    exact ⟨hoffen, fun g hg => hfilled.trans ((h.beendet hst).2 g hg)⟩

def Gezeigt (b : Buch) (l : Verlauf) : Prop :=
  ∀ z id st, ⟨.getOrderById z id, .ok (some st)⟩ ∈ l → ∃ o, b[id]? = some o ∧ st.Zeigte o

theorem Gezeigt.schritt {b b' : Buch} {l : Verlauf} {i : Frage} {a : i.Antwort} (h : Gezeigt b l)
    (ha : b.antwortet i a b') : Gezeigt b' (l ++ [⟨i, a⟩]) := by
  intro z id st hmem
  rcases List.mem_append.mp hmem with hmem | hmem
  · obtain ⟨o, ho, hst⟩ := h z id st hmem
    obtain ⟨o', ho', hfilled, hoffen⟩ := Buch.bleibt ha ho
    refine ⟨o', ho', fun g hg => ?_, fun hne => ?_⟩
    · rw [hfilled]
      exact hst.gefuellt g hg
    · rw [hfilled, hoffen]
      exact hst.beendet hne
  · cases List.mem_singleton.mp hmem
    obtain ⟨rfl, hzeigt⟩ := ha
    obtain ⟨o, ho, hst⟩ := hzeigt st rfl
    exact ⟨o, ho, hst.zeigte⟩

theorem Gezeigt.weiter {b b' : Buch} {l : Verlauf} (h : Gezeigt b l) (hw : b.Weiter b') :
    Gezeigt b' l := by
  intro z id st hmem
  obtain ⟨o, ho, hst⟩ := h z id st hmem
  obtain ⟨o', ho', how⟩ := hw.getElem? ho
  exact ⟨o', ho', hst.weiter how⟩

/-- The summary and the log agree on the sale and its recovery. -/
structure Verfolgt (x : Zwischenstand) (l : Verlauf) : Prop where
  verkauft : ∀ id q m, x.tausch.stand = some (id, q, m) → Verkauft l id q
  genannt : ∀ id q g, Genannt l id q g ↔ x.tausch.stand = some (id, q, some g)
  rueckkauf : ∀ r a, ⟨.submitOrder .rueckkauf r, a⟩ ∈ l →
    ∃ id q m, x.tausch = .gekauft id q m r.qty
  gekauft : ∀ id q m menge, x.tausch = .gekauft id q m menge →
    menge = m.getD q ∧ ∃ r a, ⟨.submitOrder .rueckkauf r, a⟩ ∈ l ∧ r.qty = menge
  gehalten : x.gehalten = true → ⟨.kritisch .tradingHalted, ()⟩ ∈ l

section

variable {x y : Zwischenstand} {l : Verlauf} {i : Frage} {a : i.Antwort}

/-- A step that neither asks for the fill nor buys back. -/
theorem Verfolgt.gleich (h : Verfolgt x l) (htausch : y.tausch = x.tausch)
    (hgehalten : y.gehalten = true → x.gehalten = true ∨
      (⟨.kritisch .tradingHalted, ()⟩ : Σ i : Frage, i.Antwort) = ⟨i, a⟩)
    (hfrage : ∀ q id, i ≠ .getOrderById (.verdraengung q) id)
    (hkauf : ∀ r, i ≠ .submitOrder .rueckkauf r) : Verfolgt y (l ++ [⟨i, a⟩]) where
  verkauft id q m hst := (h.verkauft id q m (htausch ▸ hst)).mono _
  genannt id q g := by
    rw [genannt_append, h.genannt, htausch]
    refine or_iff_left ?_
    rintro ⟨st, he, -⟩
    exact hfrage q id (Sigma.mk.inj he).1.symm
  rueckkauf r a' hmem := by
    rw [htausch]
    rcases List.mem_append.mp hmem with hmem | hmem
    · exact h.rueckkauf r a' hmem
    · exact absurd (Sigma.mk.inj (List.mem_singleton.mp hmem)).1.symm (hkauf r)
  gekauft id q m menge hst := by
    obtain ⟨hmenge, r, a', hmem, hr⟩ := h.gekauft id q m menge (htausch ▸ hst)
    exact ⟨hmenge, r, a', List.mem_append_left _ hmem, hr⟩
  gehalten hy := by
    rcases hgehalten hy with hx | he
    · exact List.mem_append_left _ (h.gehalten hx)
    · exact List.mem_append_right _ (List.mem_singleton.mpr he)

/-- The sale is sent, or an order taken over for it. -/
theorem Verfolgt.neu (h : Verfolgt x l) (hx : x.tausch.stand = none)
    (hgehalten : y.gehalten = x.gehalten) (hgekauft : ∀ id q m menge, y.tausch ≠ .gekauft id q m menge)
    (hverkauft : ∀ id q m, y.tausch.stand = some (id, q, m) →
      m = none ∧ Verkauft (l ++ [⟨i, a⟩]) id q)
    (hfrage : ∀ q id, i ≠ .getOrderById (.verdraengung q) id)
    (hkauf : ∀ r, i ≠ .submitOrder .rueckkauf r) : Verfolgt y (l ++ [⟨i, a⟩]) where
  verkauft id q m hst := (hverkauft id q m hst).2
  genannt id q g := by
    rw [genannt_append, h.genannt, hx]
    refine iff_of_false ?_ fun hst => ?_
    · rintro (h0 | ⟨st, he, -⟩)
      · cases h0
      · exact hfrage q id (Sigma.mk.inj he).1.symm
    · cases (hverkauft id q (some g) hst).1
  rueckkauf r a' hmem := by
    rcases List.mem_append.mp hmem with hmem | hmem
    · obtain ⟨id, q, m, ht⟩ := h.rueckkauf r a' hmem
      rw [ht] at hx
      cases hx
    · exact absurd (Sigma.mk.inj (List.mem_singleton.mp hmem)).1.symm (hkauf r)
  gekauft id q m menge hst := absurd hst (hgekauft id q m menge)
  gehalten hy := List.mem_append_left _ (h.gehalten (hgehalten ▸ hy))

/-- The fill is asked for. -/
theorem Verfolgt.abgefragt {id : Nat} {q : Rat} {a : Except Fremdfehler (Option Orderstand)}
    (h : Verfolgt x l) (hx : x.tausch = .verkauft id q) :
    Verfolgt { x with tausch := .gefragt id q (gefuellt a) }
      (l ++ [⟨.getOrderById (.verdraengung q) id, a⟩]) where
  verkauft id' q' m hst := by
    obtain ⟨rfl, hrest⟩ := Prod.mk.inj (Option.some.inj hst)
    obtain ⟨rfl, -⟩ := Prod.mk.inj hrest
    exact (h.verkauft id q none (by rw [hx]; rfl)).mono _
  genannt id' q' g := by
    rw [genannt_append, h.genannt, hx]
    show (some (id, q, none) = some (id', q', some g) ∨ _) ↔
      some (id, q, gefuellt a) = some (id', q', some g)
    refine ⟨?_, fun hst => .inr ?_⟩
    · rintro (h0 | ⟨st, he, hg⟩)
      · cases h0
      · cases he
        rw [gefuellt, hg]
    · obtain ⟨rfl, hrest⟩ := Prod.mk.inj (Option.some.inj hst)
      obtain ⟨rfl, hg⟩ := Prod.mk.inj hrest
      cases a with
      | error f => cases hg
      | ok st =>
        cases st with
        | none => cases hg
        | some st => exact ⟨st, rfl, hg⟩
  rueckkauf r a' hmem := by
    rcases List.mem_append.mp hmem with hmem | hmem
    · obtain ⟨id', q', m, ht⟩ := h.rueckkauf r a' hmem
      cases hx.symm.trans ht
    · cases (Sigma.mk.inj (List.mem_singleton.mp hmem)).1
  gekauft _ _ _ _ hst := nomatch hst
  gehalten hy := List.mem_append_left _ (h.gehalten hy)

/-- The sale is bought back. -/
theorem Verfolgt.zurueck {id : Nat} {q : Rat} {m : Option Rat} {r : Auftrag}
    {a : Except Fremdfehler Nat} (h : Verfolgt x l) (hx : x.tausch.ruecknahme = some (id, q, m))
    (hr : r.qty = m.getD q) :
    Verfolgt { x with tausch := .gekauft id q m r.qty } (l ++ [⟨.submitOrder .rueckkauf r, a⟩]) := by
  obtain ⟨hstand, hnicht⟩ := Tausch.stand_of_ruecknahme hx
  have hstand' : (Tausch.gekauft id q m r.qty).stand = x.tausch.stand := hstand.symm
  refine ⟨fun id' q' m' hst => ?_, fun id' q' g => ?_, fun r' a' hmem => ?_,
    fun id' q' m' menge hst => ?_, fun hy => List.mem_append_left _ (h.gehalten hy)⟩
  · exact (h.verkauft id' q' m' (hstand' ▸ hst)).mono _
  · rw [genannt_append, h.genannt]
    show _ ↔ (Tausch.gekauft id q m r.qty).stand = _
    rw [hstand']
    refine or_iff_left ?_
    rintro ⟨st, he, -⟩
    cases (Sigma.mk.inj he).1
  · rcases List.mem_append.mp hmem with hmem | hmem
    · obtain ⟨id', q', m', ht⟩ := h.rueckkauf r' a' hmem
      exact absurd ht (hnicht _ _ _ _)
    · cases (Sigma.mk.inj (List.mem_singleton.mp hmem)).1
      exact ⟨id, q, m, rfl⟩
  · obtain ⟨rfl, rfl, rfl, rfl⟩ := Tausch.gekauft.inj hst
    exact ⟨hr, r, a, List.mem_append_right _ (List.mem_singleton.mpr rfl), rfl⟩

theorem Verfolgt.schritt {k : Rahmen} (h : Verfolgt x l) (hN : Schritt k x i a y) :
    Verfolgt y (l ++ [⟨i, a⟩]) := by
  cases hN with
  | still _ hi =>
      refine h.gleich rfl .inl (fun q id he => ?_) fun r he => ?_
      · rw [he] at hi
        cases hi
      · rw [he] at hi
        cases hi
  | gesehen _ _ _ hz =>
      refine h.gleich rfl .inl (fun q id he => ?_) nofun
      injection he with hz'
      rw [hz'] at hz
      cases hz
  | @verdraengung _ q r a _ _ htausch =>
      refine h.neu (by rw [htausch]; rfl) rfl (fun id q' m menge => ?_) (fun id q' m hst => ?_)
        nofun nofun
      · cases a <;> nofun
      · cases a with
        | error f => cases hst
        | ok id' =>
            cases hst
            exact ⟨rfl, .inl ⟨r, List.mem_append_right _ (List.mem_singleton.mpr rfl)⟩⟩
  | verdraengungUebernommen htausch =>
      refine h.neu (by rw [htausch]; rfl) rfl nofun (fun id q' m hst => ?_) nofun nofun
      cases hst
      exact ⟨rfl, .inr (List.mem_append_right _ (List.mem_singleton.mpr rfl))⟩
  | verdraengungAbfrage _ htausch => exact h.abgefragt htausch
  | rueckkauf _ htausch hr => exact h.zurueck htausch hr
  | @kritisch _ e _ =>
      refine h.gleich rfl (fun hy => ?_) nofun nofun
      simp only [Bool.or_eq_true, beq_iff_eq] at hy
      exact hy.imp id fun he => by rw [he]
  | _ => exact h.gleich rfl .inl nofun nofun

end

/-- What is known of a purchase that takes a sale back.  It buys back what the broker
has named as filled, which the sale has filled, or else the whole sale.  The fill of
a sale that was shown to have ended is final. -/
structure Ausgeglichen (b : Buch) (l : Verlauf) : Prop where
  menge : ∀ r a, ⟨.submitOrder .rueckkauf r, a⟩ ∈ l → ∃ id q, Verkauft l id q ∧
    (Genannt l id q r.qty ∨ (∀ g, ¬ Genannt l id q g) ∧ r.qty = q)
  genannt : ∀ id q g, Genannt l id q g → ∃ o, b[id]? = some o ∧ g ≤ o.filledQty
  endgueltig : ∀ id q st g, ⟨.getOrderById (.verdraengung q) id, .ok (some st)⟩ ∈ l →
    liesWert st.filledQty = some g → st.status ≠ .andere →
      ∃ o, b[id]? = some o ∧ o.offen = false ∧ o.filledQty = g

theorem Verfolgt.ausgeglichen {x : Zwischenstand} {b : Buch} {l : Verlauf} (h : Verfolgt x l)
    (hgezeigt : Gezeigt b l) : Ausgeglichen b l where
  menge r a hmem := by
    obtain ⟨id, q, m, ht⟩ := h.rueckkauf r a hmem
    have hstand : x.tausch.stand = some (id, q, m) := by rw [ht]; rfl
    obtain ⟨hmenge, -⟩ := h.gekauft id q m r.qty ht
    refine ⟨id, q, h.verkauft id q m hstand, ?_⟩
    cases m with
    | some g =>
        refine .inl ((h.genannt id q r.qty).mpr ?_)
        rw [hstand, hmenge]
        rfl
    | none =>
        refine .inr ⟨fun g hg => ?_, hmenge⟩
        have hst := (h.genannt id q g).mp hg
        rw [hstand] at hst
        cases hst
  genannt id q g := by
    rintro ⟨st, hmem, hg⟩
    obtain ⟨o, ho, hst⟩ := hgezeigt _ _ _ hmem
    exact ⟨o, ho, hst.gefuellt g hg⟩
  endgueltig id q st g hmem hg hne := by
    obtain ⟨o, ho, hst⟩ := hgezeigt _ _ _ hmem
    obtain ⟨hoffen, hfilled⟩ := hst.beendet hne
    exact ⟨o, ho, hoffen, hfilled g hg⟩

/-- A purchase that takes a sale back buys what the broker has named as filled, or the
whole sale where it has named nothing.  A run that has ended has bought back what was
named, if that is positive, or a halt has kept it back. -/
theorem rueckkauf_treu {u : Umfeld} {tenant : Tenant} {event : Signal} {source : Quelle}
    {c : Conf Buch Frage Frage.Antwort (Except Ende Bool)}
    (h : (mandantenlauf u tenant event source).Reach c) :
    Ausgeglichen c.store c.log ∧ ∀ res, c.rest = .done res → ∀ id q g, Genannt c.log id q g → 0 < g →
      (∃ r a, ⟨.submitOrder .rueckkauf r, a⟩ ∈ c.log ∧ r.qty = g) ∨
        ⟨.kritisch .tradingHalted, ()⟩ ∈ c.log := by
  have h0 : Verfolgt {} [] := by
    refine ⟨nofun, fun id q g => iff_of_false ?_ nofun, fun _ _ hmem => absurd hmem List.not_mem_nil,
      nofun, nofun⟩
    rintro ⟨st, hmem, -⟩
    exact absurd hmem List.not_mem_nil
  obtain ⟨x, ⟨hx, hgezeigt⟩, hrest⟩ := World.sound (I := fun x b l => Verfolgt x l ∧ Gezeigt b l)
    (fun _ _ => ⟨h0, fun _ _ _ hmem => absurd hmem List.not_mem_nil⟩)
    (fun hI hd => ⟨hI.1, hI.2.weiter hd⟩)
    (fun hI hN ha _ => ⟨hI.1.schritt hN, hI.2.schritt ha⟩)
    (executeTenantOrder_follows (rahmen_passt u event source) tenant) (World.reach_unconditional h)
  refine ⟨hx.ausgeglichen hgezeigt, fun res hres id q g hg hpos => ?_⟩
  rw [hres] at hrest
  have hzurueck : Zurueckgenommen x.tausch x.gehalten := by
    cases res with
    | ok b => exact Beendet.zurueck hrest
    | error e => exact Beendet.zurueck hrest
  have hstand := (hx.genannt id q g).mp hg
  cases ht : x.tausch with
  | gefragt id' q' m =>
      rw [ht] at hstand
      cases hstand
      exact .inr (hx.gehalten (hzurueck id q g ht hpos))
  | gekauft id' q' m menge =>
      rw [ht] at hstand
      cases hstand
      obtain ⟨hmenge, r, a, hmem, hr⟩ := hx.gekauft id q (some g) menge ht
      exact .inl ⟨r, a, hmem, hr.trans hmenge⟩
  | _ =>
      rw [ht] at hstand
      cases hstand

/-- A purchase is rejected after the sale, which the book has taken further meanwhile,
and the sale is bought back. -/
theorem can_davor {T : Buch → Verlauf → Prop} {u : Umfeld} {tenant : Tenant} {event : Signal}
    {source : Quelle} {Q : Bool → Buch → Verlauf → Prop} {E : Ende → Buch → Verlauf → Prop}
    (symbol : String) (oldPos : Position) (account : Konto) (size : Rat)
    (hschatten : u.shadowMode = false) (hfirst : u.displacementBuyFirst = false)
    (hseite : event.seite = .buy) (hsymbol : event.symbol ≠ "")
    (hpreis : 0 < event.kontext.currentPrice) (hsize : 0 < size)
    (hpos : 0 < freigegebeneMenge event source size) (hne : symbol ≠ "") (hold : 0 < oldPos.qty)
    (hmult : account.multiplier = 1)
    (hbp : size * event.kontext.currentPrice ≤ account.buyingPower)
    (a : Except Fremdfehler (Option Orderstand)) (hrueck : 0 < (gefuellt a).getD oldPos.qty)
    (h : ∀ r, r.qty = oldPos.qty → ∀ hr : 0 < r.qty, ∃ o,
      (Order.neu (.verdraengung oldPos.qty) r hr).Weiter o ∧ (∀ st, a = .ok (some st) → st.Zeigt o) ∧
      ∀ r', r'.qty = (gefuellt a).getD oldPos.qty → ∀ (hr' : 0 < r'.qty) (l' : Verlauf),
        Verkauft l' 0 oldPos.qty → ⟨.getOrderById (.verdraengung oldPos.qty) 0, a⟩ ∈ l' →
        ⟨.submitOrder .rueckkauf r', .ok 1⟩ ∈ l' → T [o, Order.neu .rueckkauf r' hr'] l') :
    welt.Can (fun _ _ _ _ => True) T (executeTenantOrder u tenant event source) Q E [] [] := by
  refine can_executeTenantOrder offen_true fun l₁ _ => ?_
  refine can_vorlauf_davor offen_true hseite hfirst hpreis hsize hpos hne hold hmult hbp
    fun r hr => ?_
  have hr0 : 0 < r.qty := hr ▸ hold
  obtain ⟨o, how, hzeigt, hT⟩ := h r hr hr0
  refine ⟨_, ⟨⟨hr0, rfl⟩, rfl⟩, trivial, trivial, fun st l₂ _ hmem hqty hdef hclose hid hsell => ?_⟩
  have hd : Buch.Weiter [Order.neu (.verdraengung oldPos.qty) r hr0] [o] :=
    ⟨[o], [], rfl, .cons how .nil, fun _ ho => absurd ho List.not_mem_nil⟩
  refine World.can_drift hd ?_
  rw [abgang]
  refine World.can_bind (can_schrittMandantAuftrag offen_true fun req l₃ h₃ hreq hexit _ => ?_)
  have hexit' : istLimitExit event.seite req = false := by
    rw [hexit, hseite]
    rfl
  rw [hschatten]
  refine World.can_bind (World.can_bind ?_)
  rw [hexit']
  refine can_exceptApiError (can_submitWithMarketFailsafe offen_true hreq (hqty ▸ hpos) hsymbol
    (.error (.apiError (some 422) false)) (fun f hf => ⟨Except.error.inj hf ▸ rfl, rfl⟩) fun r' _ => ?_)
  refine ⟨[o], .inl rfl, trivial, fun l₄ h₄ _ => ⟨_, _, rfl, World.can_bind ?_⟩⟩
  rw [nimmVerkaufZurueck, hclose, hid, hsell]
  refine World.can_bind (World.can_pure ?_)
  show welt.Can _ T (if symbol = "" then return () else _) _ _ [o] l₄
  rw [if_neg hne]
  refine can_recoverDisplacement offen_true hne a ⟨rfl, fun st hst => ⟨o, rfl, hzeigt st hst⟩⟩ trivial
    trivial hrueck fun r' hr' => ?_
  have hr0' : 0 < r'.qty := hr' ▸ hrueck
  refine ⟨_, ⟨⟨hr0', rfl⟩, rfl⟩, trivial, fun l₅ h₅ hfrage hkauf => ?_⟩
  exact hT r' hr' hr0' l₅ (.inl ⟨r, h₅ (h₄ (h₃ hmem))⟩) hfrage hkauf

/-- A sale of five shares that ends with two filled, which are bought back. -/
theorem rueckkauf_treu_teilweise : ∃ c : Conf Buch Frage Frage.Antwort (Except Ende Bool),
    (∃ r a, ⟨.submitOrder .rueckkauf r, a⟩ ∈ c.log ∧ r.qty = 2) ∧ Ausgeglichen c.store c.log := by
  obtain ⟨c, hc, hT⟩ : ∃ c, (mandantenlauf (beispielUmfeld false) beispielTenant
      (beispielSignal .buy) .ai).Reach c ∧
      ∃ r a, ⟨.submitOrder .rueckkauf r, a⟩ ∈ c.log ∧ r.qty = 2 := by
    refine mandantenlauf_reach_frei
      (T := fun _ l => ∃ r a, ⟨.submitOrder .rueckkauf r, a⟩ ∈ l ∧ r.qty = 2) ?_
    refine can_davor "MSFT" ⟨5, 100⟩ ⟨1000, 1⟩ 10 rfl rfl rfl (by decide)
      (by norm_num [beispielSignal]) (by norm_num) (by norm_num) (by decide) (by norm_num) rfl
      (by norm_num [beispielSignal]) (.ok (some ⟨.canceled, .zahl 2⟩))
      (by norm_num [gefuellt, liesWert]) fun r hr hr0 => ?_
    have hle : (2 : Rat) ≤ r.qty := by rw [hr]; norm_num
    refine ⟨{ Order.neu (.verdraengung 5) r hr0 with
      filledQty := 2, offen := false, filledQty_nonneg := by norm_num, filledQty_le := hle },
      ⟨rfl, rfl, rfl, rfl, rfl, by norm_num [Order.neu],
        fun h => absurd h.symm Bool.false_ne_true⟩, ?_, ?_⟩
    · rintro st hst
      cases hst
      exact ⟨fun x hx => by cases hx; rfl, (by simp), (by simp), fun _ => rfl⟩
    · exact fun r' hr' _ l' _ _ hmem => ⟨r', _, hmem, hr'⟩
  exact ⟨c, hT, (rueckkauf_treu hc).1⟩

/-- A sale of five shares that has ended unfilled, and five shares bought back since
the broker did not answer. -/
theorem rueckkauf_zu_viel : ∃ c, (mandantenlauf (beispielUmfeld false) beispielTenant
    (beispielSignal .buy) .ai).Reach c ∧ ∃ r a id q o, Verkauft c.log id q ∧
      ⟨.submitOrder .rueckkauf r, a⟩ ∈ c.log ∧ c.store[id]? = some o ∧ o.offen = false ∧
      o.filledQty < r.qty := by
  refine mandantenlauf_reach_frei (T := fun b l => ∃ r a id q o, Verkauft l id q ∧
    ⟨.submitOrder .rueckkauf r, a⟩ ∈ l ∧ b[id]? = some o ∧ o.offen = false ∧ o.filledQty < r.qty) ?_
  refine can_davor "MSFT" ⟨5, 100⟩ ⟨1000, 1⟩ 10 rfl rfl rfl (by decide) (by norm_num [beispielSignal])
    (by norm_num) (by norm_num) (by decide) (by norm_num) rfl (by norm_num [beispielSignal])
    (.error .sonst) (by norm_num [gefuellt]) fun r hr hr0 => ?_
  refine ⟨(Order.neu (.verdraengung 5) r hr0).abgelaufen, Order.weiter_abgelaufen _, (by simp),
    fun r' hr' _ l' hverkauft _ hmem => ?_⟩
  refine ⟨r', _, 0, 5, _, hverkauft, hmem, rfl, rfl, ?_⟩
  rw [hr']
  norm_num [Order.abgelaufen, Order.neu, gefuellt]

end Absendung
