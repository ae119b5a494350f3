import AutonomousEngine.Basis.Sums
import AutonomousEngine.Compliance.Wash

/-!
# The throttle

In any second no user should have more approved orders than the aggregate cap,
and no more for one symbol than the cap on symbols.

The throttle counts under a lock, but the time of an order is read before the
lock is taken.  A call that waits there is overtaken by later ones, and the
buffer they leave behind has lost the orders that the waiting call has to count.
When no call throws away an order of a user whose waiting call is less than a
second from it, and the clock does not go back, the caps hold in every second.

The buffer then holds everything that was let pass in the seconds that matter:
those that contain a waiting call, and those that are not over
(`DrosselStand`).
-/

namespace Compliance

open Basis

/-- What a cap is on: all orders of a user, or those for one symbol. -/
inductive Kreis where
  | alle (userId : Option String)
  | eines (userId symbol : Option String)

def Kreis.enthaelt : Kreis → TradeRecord → Bool
  | .alle userId, r => r.userId == userId
  | .eines userId symbol, r => r.userId == userId && r.symbol == symbol

def Kreis.grenze (R : Regeln) : Kreis → Nat
  | .alle _ => R.hftMaxOrdersPerSecAggregate
  | .eines _ _ => R.hftMaxOrdersPerSecSymbol

/-- The orders of the second that begins at a time. -/
def Kreis.imFenster (k : Kreis) (t : ℚ) (r : TradeRecord) : Bool :=
  k.enthaelt r && decide (t ≤ r.timestamp ∧ r.timestamp < t + 1)

/-- How many orders of a second a cap is on. -/
def Kreis.anzahl (k : Kreis) (t : ℚ) (l : List TradeRecord) : Nat := l.countP (k.imFenster t)

/-- In no second are more orders approved than the caps allow. -/
def Gedrosselt (R : Regeln) (l : List (Done Order Urteil)) : Prop :=
  ∀ (k : Kreis) (t : ℚ), k.anzahl t (genehmigte l) ≤ k.grenze R

/-- The clock does not go back, and no call throws away an order of a user with
another call that waits for the critical section less than a second from it. -/
structure Unverdraengt (p : Pool Waechter Order Punkt Urteil) (a : PoolAct Order) (s' : Waechter) :
    Prop where
  uhr : a = .idle → p.store.jetzt ≤ s'.jetzt
  gebraucht : ∀ i o, a = .access i → o ∈ p.store.hftRecentOrders → o ∉ s'.hftRecentOrders →
    ∀ i' c n r, i' ≠ i → p.jobs i' = some ⟨c, n, .hftAbschnitt r⟩ → r.userId = o.userId →
      1 ≤ |r.timestamp - o.timestamp|

/-! ## Windows -/

variable {R : Regeln} {k : Kreis} {t : ℚ}

theorem Kreis.imFenster_iff {r : TradeRecord} :
    k.imFenster t r = true ↔ k.enthaelt r = true ∧ t ≤ r.timestamp ∧ r.timestamp < t + 1 := by
  simp [Kreis.imFenster]

theorem Kreis.gleicher_nutzer {r r' : TradeRecord} (h : k.enthaelt r = true)
    (h' : k.enthaelt r' = true) : r.userId = r'.userId := by
  cases k with
  | alle userId => simp_all [Kreis.enthaelt]
  | eines userId symbol => simp_all [Kreis.enthaelt]

theorem Kreis.abstand_lt_one {r r' : TradeRecord} (h : k.imFenster t r = true)
    (h' : k.imFenster t r' = true) : |r.timestamp - r'.timestamp| < 1 := by
  obtain ⟨-, hr, hr'⟩ := Kreis.imFenster_iff.mp h
  obtain ⟨-, ho, ho'⟩ := Kreis.imFenster_iff.mp h'
  rw [abs_lt]
  constructor <;> linarith

@[simp] theorem Kreis.anzahl_nil : k.anzahl t [] = 0 := rfl

@[simp] theorem Kreis.anzahl_append (l l' : List TradeRecord) :
    k.anzahl t (l ++ l') = k.anzahl t l + k.anzahl t l' :=
  List.countP_append

def Kreis.anteil (k : Kreis) (t : ℚ) (r : TradeRecord) : Nat := if k.imFenster t r then 1 else 0

@[simp] theorem Kreis.anzahl_singleton (r : TradeRecord) : k.anzahl t [r] = k.anteil t r := by
  simp [Kreis.anzahl, Kreis.anteil, List.countP_cons]

/-- A filter that keeps every order of a second keeps their number. -/
theorem Kreis.anzahl_filter {l : List TradeRecord} {p : TradeRecord → Bool}
    (h : ∀ o ∈ l, k.imFenster t o = true → p o = true) : k.anzahl t (l.filter p) = k.anzahl t l := by
  rw [Kreis.anzahl, Kreis.anzahl, List.countP_filter]
  refine List.countP_congr fun o ho => ?_
  constructor
  · intro hp
    exact (Bool.and_eq_true_iff.mp hp).1
  · intro hk
    exact Bool.and_eq_true_iff.mpr ⟨hk, h o ho hk⟩

/-! ## The critical section -/

section Abschnitt

variable {s : Waechter} {record : TradeRecord}

theorem mem_hftHousekeep {o : TradeRecord} :
    o ∈ hftHousekeep s record ↔ o ∈ s.hftRecentOrders ∧ record.timestamp - o.timestamp < 1 := by
  simp [hftHousekeep]

/-- The throttle lets a record pass only below each cap that is on it. -/
theorem anzahl_lt_of_hftErlaubt (h : hftErlaubt R s record = true)
    (hk : k.enthaelt record = true) : k.anzahl t (hftHousekeep s record) < k.grenze R := by
  have hle : ∀ l : List TradeRecord, k.anzahl t l ≤ l.countP k.enthaelt := fun l =>
    List.countP_mono_left fun o _ ho => (Kreis.imFenster_iff.mp ho).1
  refine lt_of_le_of_lt (hle _) ?_
  simp only [hftErlaubt, Bool.and_eq_true, decide_eq_true_eq] at h
  obtain ⟨halle, hsymbol⟩ := h
  cases k with
  | alle userId =>
      obtain rfl : record.userId = userId := by simpa [Kreis.enthaelt] using hk
      rw [List.countP_eq_length_filter]
      exact halle
  | eines userId symbol =>
      obtain ⟨rfl, rfl⟩ : record.userId = userId ∧ record.symbol = symbol := by
        simpa [Kreis.enthaelt] using hk
      rw [List.filter_filter] at hsymbol
      rw [List.countP_eq_length_filter]
      have hfilter : (fun o : TradeRecord => o.symbol == record.symbol && o.userId == record.userId) =
          (Kreis.eines record.userId record.symbol).enthaelt := by
        funext o
        exact Bool.and_comm _ _
      rw [hfilter] at hsymbol
      exact hsymbol

/-- Clearing the buffer keeps the orders of a second that contains the record. -/
theorem anzahl_hftHousekeep_record (h : k.imFenster t record = true) :
    k.anzahl t (hftHousekeep s record) = k.anzahl t s.hftRecentOrders := by
  refine Kreis.anzahl_filter fun o _ ho => ?_
  exact decide_eq_true (lt_of_le_of_lt (le_abs_self _) (Kreis.abstand_lt_one h ho))

theorem anzahl_hftHousekeep_jetzt (hr : record.timestamp ≤ s.jetzt) (ht : s.jetzt < t + 1) :
    k.anzahl t (hftHousekeep s record) = k.anzahl t s.hftRecentOrders := by
  refine Kreis.anzahl_filter fun o _ ho => decide_eq_true ?_
  obtain ⟨-, hto, -⟩ := Kreis.imFenster_iff.mp ho
  linarith

end Abschnitt

/-! ## What every state keeps -/

/-- What a call adds to the approved orders of a second: its record, once the
throttle has let it pass. -/
def gewicht (k : Kreis) (t : ℚ) : Option (Job Order Punkt) → Nat
  | some ⟨_, _, .merken r⟩ => k.anteil t r
  | _ => 0

/-- The approved orders of a second and those on their way stay within a bound. -/
def Gezaehlt (k : Kreis) (t : ℚ) (p : Pool Waechter Order Punkt Urteil) (b : Nat) : Prop :=
  AtMost (k.anzahl t (genehmigte p.log)) (gewicht k t) p.jobs b

/-- The caps hold, no waiting call is ahead of the clock, and the buffer holds the
orders of the seconds that contain a waiting call or are not over. -/
structure DrosselStand (R : Regeln) (p : Pool Waechter Order Punkt Urteil) : Prop where
  grenze : ∀ k t, Gezaehlt k t p (k.grenze R)
  uhr : ∀ i c n r, p.jobs i = some ⟨c, n, .hftAbschnitt r⟩ → r.timestamp ≤ p.store.jetzt
  wartend : ∀ i c n r, p.jobs i = some ⟨c, n, .hftAbschnitt r⟩ → ∀ k t, k.imFenster t r = true →
    Gezaehlt k t p (k.anzahl t p.store.hftRecentOrders)
  offen : ∀ k t, p.store.jetzt < t + 1 → Gezaehlt k t p (k.anzahl t p.store.hftRecentOrders)

/-- A second matters besides the call of one client: another call that waits is
in it, or it is not over. -/
def Zaehlt (p : Pool Waechter Order Punkt Urteil) (i : Nat) (k : Kreis) (t : ℚ) : Prop :=
  (∃ i' c n r, i' ≠ i ∧ p.jobs i' = some ⟨c, n, .hftAbschnitt r⟩ ∧ k.imFenster t r = true) ∨
    p.store.jetzt < t + 1

section Schritt

variable {p : Pool Waechter Order Punkt Urteil} {i : Nat} {x : Option (Job Order Punkt)}
  {s' : Waechter} {l' : List (Done Order Urteil)}

/-- One client goes on.  Its record joins the counted orders and the buffer
together, or neither changes. -/
theorem DrosselStand.weiter (h : DrosselStand R p) (neu : Kreis → ℚ → Nat)
    (hlog : ∀ k t, k.anzahl t (genehmigte l') + gewicht k t x ≤
      k.anzahl t (genehmigte p.log) + gewicht k t (p.jobs i) + neu k t)
    (hplatz : ∀ k t, neu k t = 0 ∨ ∃ b, Gezaehlt k t p b ∧ b + neu k t ≤ k.grenze R)
    (huhr : s'.jetzt = p.store.jetzt)
    (hpuffer : ∀ k t, Zaehlt p i k t →
      k.anzahl t p.store.hftRecentOrders + neu k t ≤ k.anzahl t s'.hftRecentOrders)
    (hx : ∀ c n r, x = some ⟨c, n, .hftAbschnitt r⟩ → r.timestamp = p.store.jetzt) :
    DrosselStand R ⟨s', Function.update p.jobs i x, l'⟩ := by
  have hoffen : ∀ k t, p.store.jetzt < t + 1 →
      Gezaehlt k t ⟨s', Function.update p.jobs i x, l'⟩ (k.anzahl t s'.hftRecentOrders) := by
    intro k t ht
    have hlt := hlog k t
    have hpt := hpuffer k t (.inr ht)
    exact (h.offen k t ht).update i x (by dsimp only; omega)
  refine ⟨fun k t => ?_, fun i' c n r hi' => ?_, fun i' c n r hi' k t hr => ?_, fun k t ht => ?_⟩
  · have hlt := hlog k t
    rcases hplatz k t with h0 | ⟨b, hb, hle⟩
    · exact (h.grenze k t).update i x (by dsimp only; omega)
    · exact AtMost.update hb i x (by dsimp only; omega)
  · rw [huhr]
    rcases update_jobs_eq_some.mp hi' with ⟨-, hneu⟩ | ⟨-, halt⟩
    · exact (hx c n r hneu).le
    · exact h.uhr i' c n r halt
  · rcases update_jobs_eq_some.mp hi' with ⟨-, hneu⟩ | ⟨hne, halt⟩
    · -- a call that has just read the clock: its second is not over
      obtain ⟨-, -, hlt⟩ := Kreis.imFenster_iff.mp hr
      exact hoffen k t (hx c n r hneu ▸ hlt)
    · have hlt := hlog k t
      have hpt := hpuffer k t (.inl ⟨i', c, n, r, hne, halt, hr⟩)
      exact (h.wartend i' c n r halt k t hr).update i x (by dsimp only; omega)
  · exact hoffen k t (huhr ▸ ht)

/-- A step that counts nothing new and leaves the buffer alone. -/
theorem DrosselStand.ohneNeues (h : DrosselStand R p)
    (hlog : ∀ k t, k.anzahl t (genehmigte l') + gewicht k t x ≤
      k.anzahl t (genehmigte p.log) + gewicht k t (p.jobs i))
    (huhr : s'.jetzt = p.store.jetzt) (hpuffer : s'.hftRecentOrders = p.store.hftRecentOrders)
    (hx : ∀ c n r, x = some ⟨c, n, .hftAbschnitt r⟩ → r.timestamp = p.store.jetzt) :
    DrosselStand R ⟨s', Function.update p.jobs i x, l'⟩ :=
  h.weiter (fun _ _ => 0) (fun k t => by simpa using hlog k t) (fun _ _ => .inl rfl) huhr
    (fun k t _ => by rw [hpuffer, Nat.add_zero]) hx

variable {c : Order} {n : Nat} {record : TradeRecord}

/-- Clearing the buffer under the condition keeps the orders of each second that
matters. -/
theorem anzahl_hftHousekeep (h : DrosselStand R p)
    (hi : p.jobs i = some ⟨c, n, .hftAbschnitt record⟩)
    (hG : ∀ o ∈ p.store.hftRecentOrders, o ∉ hftHousekeep p.store record →
      ∀ i' c n r, i' ≠ i → p.jobs i' = some ⟨c, n, .hftAbschnitt r⟩ → r.userId = o.userId →
        1 ≤ |r.timestamp - o.timestamp|)
    (hz : Zaehlt p i k t) :
    k.anzahl t (hftHousekeep p.store record) = k.anzahl t p.store.hftRecentOrders := by
  rcases hz with ⟨i', c', n', r, hne, hi', hr⟩ | ht
  · refine Kreis.anzahl_filter fun o ho hko => decide_eq_true ?_
    by_contra hweg
    have hnot : o ∉ hftHousekeep p.store record := fun hmem => hweg (mem_hftHousekeep.mp hmem).2
    have huser : r.userId = o.userId :=
      Kreis.gleicher_nutzer (Kreis.imFenster_iff.mp hr).1 (Kreis.imFenster_iff.mp hko).1
    have hfern := hG o ho hnot i' c' n' r hne hi' huser
    exact absurd (Kreis.abstand_lt_one hr hko) (not_lt.mpr hfern)
  · exact anzahl_hftHousekeep_jetzt (h.uhr i c n record hi) ht

theorem DrosselStand.uhrzeit (h : DrosselStand R p) {jetzt : ℚ} (hle : p.store.jetzt ≤ jetzt) :
    DrosselStand R { p with store := { p.store with jetzt := jetzt } } :=
  ⟨h.grenze, fun i c n r hi => le_trans (h.uhr i c n r hi) hle, h.wartend,
    fun k t ht => h.offen k t (lt_of_le_of_lt hle ht)⟩

end Schritt

/-! ## All runs -/

section Laeufe

variable {s s' : Waechter} {q : Punkt}

/-- A contact that goes on: it is the throttle, which lets a record pass, or it
leaves the guardian alone and counts nothing. -/
theorem Zugriff.geht_weiter {q' : Punkt} (h : Zugriff R s q s' (.inl q')) :
    (∃ record, q = .hftAbschnitt record ∧ q' = .merken record ∧
        Compliance.hftErlaubt R s record = true ∧
        s' = { s with hftRecentOrders := hftHousekeep s record ++ [record] }) ∨
      s' = s ∧ (∀ r, q' ≠ .merken r) ∧ ∀ r, q' = .hftAbschnitt r → r.timestamp = s.jetzt := by
  generalize hr : (Sum.inl q' : Punkt ⊕ Urteil) = r at h
  cases h with
  | @beginn order =>
      cases hv : vorpruefung R order with
      | some code => simp [nachVorpruefung, hv] at hr
      | none =>
          obtain rfl : q' = .washSnapshot order s.jetzt := by simpa [nachVorpruefung, hv] using hr
          exact .inr ⟨rfl, by simp, by simp⟩
  | @washSnapshot order now =>
      cases hw : detectWashTrade R now s.recentTrades order with
      | true => simp [nachSnapshot, hw] at hr
      | false =>
          cases hl : checkRiskLimits R order with
          | false => simp [nachSnapshot, hw, hl] at hr
          | true =>
              obtain rfl : q' = .hftUhr order := by simpa [nachSnapshot, hw, hl] using hr
              exact .inr ⟨rfl, by simp, by simp⟩
  | hftUhr =>
      obtain rfl := Sum.inl.inj hr
      refine .inr ⟨rfl, by simp, fun r hr => ?_⟩
      cases hr
      rfl
  | @hftErlaubt record he =>
      obtain rfl := Sum.inl.inj hr
      exact .inl ⟨record, rfl, rfl, he, rfl⟩
  | hftGedrosselt => cases hr
  | merken => cases hr
  | fehler => cases hr
  | merkenFehler => cases hr

/-- A contact that answers leaves the buffer of the throttle alone, or it is the
throttle, which has cleared it. -/
theorem Zugriff.endet {u : Urteil} (h : Zugriff R s q s' (.inr u)) :
    s'.hftRecentOrders = s.hftRecentOrders ∨
      ∃ record, q = .hftAbschnitt record ∧ s'.hftRecentOrders = hftHousekeep s record := by
  generalize hr : (Sum.inr u : Punkt ⊕ Urteil) = r at h
  cases h with
  | @hftGedrosselt record _ => exact .inr ⟨record, rfl, rfl⟩
  | hftErlaubt => cases hr
  | _ => exact .inl rfl

variable {p p' : Pool Waechter Order Punkt Urteil} {a : PoolAct Order}

theorem gewicht_some {c : Order} {n : Nat} (hq : ∀ r, q ≠ .merken r) :
    gewicht k t (some ⟨c, n, q⟩) = 0 := by
  cases q with
  | merken r => exact absurd rfl (hq r)
  | _ => rfl

/-- An answer adds to the approved orders what the call was counted with. -/
theorem anzahl_antwort {i n : Nat} {c : Order} {u : Urteil} (h : Zugriff R s q s' (.inr u)) :
    k.anzahl t (genehmigte (p.log ++ [⟨i, c, n, u⟩])) ≤
      k.anzahl t (genehmigte p.log) + gewicht k t (some ⟨c, n, q⟩) := by
  rw [genehmigte_append, Kreis.anzahl_append]
  cases u with
  | abgelehnt code => simp [genehmigte]
  | genehmigt record =>
      obtain ⟨rfl, -⟩ := h.genehmigt
      simp [genehmigte, gewicht]

theorem DrosselStand.schritt (h : DrosselStand R p) (hs : (checkOrder R).PoolStep p a p')
    (hG : Unverdraengt p a p'.store) : DrosselStand R p' := by
  cases hs with
  | @enter i c hi =>
      exact h.ohneNeues (fun k t => by simp [gewicht, checkOrder]) rfl rfl (by simp [checkOrder])
  | @access i c n q s q' hi ha =>
      rcases Zugriff.geht_weiter ha with ⟨record, rfl, rfl, he, rfl⟩ | ⟨rfl, hm, hx⟩
      · have hbleibt : ∀ o ∉ hftHousekeep p.store record, o ∈ p.store.hftRecentOrders →
            o ∉ hftHousekeep p.store record ++ [record] := by
          intro o hnot ho hmem
          rcases List.mem_append.mp hmem with hmem | hmem
          · exact hnot hmem
          · obtain rfl := List.mem_singleton.mp hmem
            exact hnot (mem_hftHousekeep.mpr ⟨ho, by norm_num⟩)
        refine h.weiter (fun k t => k.anteil t record) (fun k t => ?_) (fun k t => ?_) rfl
          (fun k t hz => ?_) (by simp)
        · simp [hi, gewicht]
        · by_cases hk : k.imFenster t record = true
          · refine .inr ⟨_, h.wartend i c n record hi k t hk, ?_⟩
            have hlt := anzahl_lt_of_hftErlaubt (t := t) he (Kreis.imFenster_iff.mp hk).1
            rw [anzahl_hftHousekeep_record hk] at hlt
            simpa [Kreis.anteil, hk] using Nat.succ_le_of_lt hlt
          · exact .inl (by simp [Kreis.anteil, hk])
        · have hkeep := anzahl_hftHousekeep h hi
            (fun o ho hnot => hG.gebraucht i o rfl ho (hbleibt o hnot ho)) hz
          simp [hkeep]
      · refine h.ohneNeues (fun k t => ?_) rfl rfl fun c' n' r heq => ?_
        · rw [gewicht_some hm]
          omega
        · have heq := Option.some.inj heq
          exact hx r (congrArg Job.point heq)
  | @answer i c n q s u hi ha =>
      have hlog : ∀ k t, k.anzahl t (genehmigte (p.log ++ [⟨i, c, n, u⟩])) + gewicht k t none ≤
          k.anzahl t (genehmigte p.log) + gewicht k t (p.jobs i) := by
        intro k t
        rw [hi]
        exact anzahl_antwort ha
      rcases Zugriff.endet ha with hbuf | ⟨record, rfl, hbuf⟩
      · exact h.ohneNeues hlog (Zugriff.jetzt ha) hbuf (by simp)
      · refine h.weiter (fun _ _ => 0) (fun k t => hlog k t) (fun _ _ => .inl rfl)
          (Zugriff.jetzt ha) (fun k t hz => ?_) (by simp)
        have hkeep := anzahl_hftHousekeep h hi
          (fun o ho hnot => hG.gebraucht i o rfl ho (hbuf ▸ hnot)) hz
        simp [hbuf, hkeep]
  | @crash i => exact h.ohneNeues (fun k t => by simp [gewicht]) rfl rfl (by simp)
  | idle hi =>
      obtain ⟨jetzt, rfl⟩ := hi
      exact h.uhrzeit (hG.uhr rfl)

theorem DrosselStand.anfang (h : (system R).start p) : DrosselStand R p := by
  obtain ⟨⟨-, -, hleer⟩, hj, hl⟩ := h
  have hzahl : ∀ k t b, Gezaehlt k t p b := fun k t b =>
    AtMost.of_none rfl hj (by simp [hl, genehmigte])
  exact ⟨fun k t => hzahl k t _, fun i c n r hi => by simp [hj i] at hi,
    fun i c n r hi => by simp [hj i] at hi, fun k t _ => hzahl k t _⟩

/-- When no call throws away what a waiting call has to count, and the clock does
not go back, no second has more approved orders than the caps allow. -/
theorem drossel_eingehalten (R : Regeln) {p : Pool Waechter Order Punkt Urteil}
    (h : ((system R).restrict (guarded Unverdraengt)).Reach p) : Gedrosselt R p.log := by
  have hstand : DrosselStand R p :=
    h.invariant (S := (system R).restrict (guarded Unverdraengt)) (I := fun p => DrosselStand R p)
      (fun _ hp => .anfang hp) fun _ _ _ hp ⟨hs, hG⟩ => hp.schritt hs hG
  exact fun k t => (hstand.grenze k t).le

end Laeufe

/-! ## A run within the caps, and a call that is overtaken -/

section Beispiel

def UhrVorwaerts (p : Pool Waechter Order Punkt Urteil) (a : PoolAct Order) (s' : Waechter) : Prop :=
  a = .idle → p.store.jetzt ≤ s'.jetzt

theorem detectWashTrade_kauf {s : Waechter} {now : ℚ}
    (h : ∀ t ∈ s.recentTrades, t.side = some "buy") :
    detectWashTrade regeln now s.recentTrades (order "buy") = false := by
  refine List.any_eq_false.mpr fun t ht => ?_
  simp [h t ht, order, oppositeSide]

/-- After a buy there are only buys in the buffer if there were before. -/
theorem recentTrades_nachOrder {s : Waechter} (h : ∀ t ∈ s.recentTrades, t.side = some "buy") :
    ∀ t ∈ (nachOrder s "buy").recentTrades, t.side = some "buy" := by
  intro t ht
  simp only [nachOrder, recordRecentTrade, cleanupRecentTrades, List.mem_filter, List.mem_append,
    List.mem_singleton] at ht
  rcases ht with ⟨ht | rfl, -⟩
  · exact h t ht
  · rfl

theorem solo_kauf {s : Waechter} (h : ∀ t ∈ s.recentTrades, t.side = some "buy")
    (hh : hftErlaubt regeln s ((order "buy").record s.jetzt) = true) :
    (checkOrder regeln).Solo (fun _ _ => True) s (.beginn (order "buy")) (nachOrder s "buy")
      (.inr (.genehmigt ((order "buy").record s.jetzt))) :=
  (solo_snapshot "buy" (detectWashTrade_kauf h)).trans rfl (solo_rest hh)

/-- The rest of a call that waits for the critical section. -/
theorem solo_abschnitt {s : Waechter} {r : TradeRecord} (hh : hftErlaubt regeln s r = true) :
    (checkOrder regeln).Solo (fun _ _ => True) s (.hftAbschnitt r)
      (recordRecentTrade regeln { s with hftRecentOrders := hftHousekeep s r ++ [r] } r)
      (.inr (.genehmigt r)) :=
  .next trivial (.hftErlaubt hh) (.answer trivial .merken)

/-- After one buy, after two, and two seconds later. -/
def nachEinem : Waechter := nachOrder frisch "buy"
def nachZweien : Waechter := nachOrder nachEinem "buy"
def zweiSekundenSpaeter : Waechter := { nachZweien with jetzt := 2 }

theorem recentTrades_nachEinem : ∀ t ∈ nachEinem.recentTrades, t.side = some "buy" :=
  recentTrades_nachOrder (by simp [frisch])

theorem recentTrades_nachZweien : ∀ t ∈ nachZweien.recentTrades, t.side = some "buy" :=
  recentTrades_nachOrder recentTrades_nachEinem

theorem hftErlaubt_nachEinem :
    hftErlaubt regeln nachEinem ((order "buy").record nachEinem.jetzt) = true := by
  simp [hftErlaubt, hftHousekeep, nachEinem, nachOrder, recordRecentTrade, frisch, Order.record,
    regeln]

theorem hftErlaubt_zweiSekundenSpaeter : hftErlaubt regeln zweiSekundenSpaeter
    ((order "buy").record zweiSekundenSpaeter.jetzt) = true := by
  simp [hftErlaubt, hftHousekeep, zweiSekundenSpaeter, nachZweien, nachEinem, nachOrder,
    recordRecentTrade, frisch, Order.record, regeln]

/-- Two buys, and a third two seconds later. -/
theorem drossel_eingehalten_drei :
    ∃ p, ((system regeln).restrict (guarded Unverdraengt)).Reach p ∧
      genehmigte p.log =
        [(order "buy").record 0, (order "buy").record 0, (order "buy").record 2] ∧
      Gedrosselt regeln p.log := by
  have hG : ∀ c (l : List (Done Order Urteil)) s q s',
      Unverdraengt ⟨s, Function.update (fun _ => none) 0 (some ⟨c, l.length, q⟩), l⟩ (.access 0)
        s' := by
    refine fun c l s q s' => ⟨by simp, ?_⟩
    rintro i o ⟨⟩ - - i' c' n' r hne hi'
    simp [hne] at hi'
  have henter : ∀ p c s, Unverdraengt p (.enter 0 c) s := fun p c s => ⟨by simp, by simp⟩
  have heins := alone_reach (M := checkOrder regeln) (.start frisch_start)
    (solo_kauf (by simp [frisch]) (hftErlaubt_frisch "buy")) (henter _ _ _)
    fun s q s' _ => hG _ _ s q s'
  have hzwei := alone_reach (M := checkOrder regeln) heins
    (solo_kauf recentTrades_nachEinem hftErlaubt_nachEinem) (henter _ _ _)
    fun s q s' _ => hG _ _ s q s'
  have hspaeter := System.Reach.step hzwei
    ⟨Machine.PoolStep.idle ⟨2, rfl⟩, ⟨fun _ => (by norm_num [nachEinem, nachOrder,
      recordRecentTrade, frisch] : (0 : ℚ) ≤ 2), by simp⟩⟩
  have hdrei := alone_reach (M := checkOrder regeln) hspaeter
    (solo_kauf recentTrades_nachZweien hftErlaubt_zweiSekundenSpaeter) (henter _ _ _)
    fun s q s' _ => hG _ _ s q s'
  exact ⟨_, hdrei, rfl, drossel_eingehalten regeln hdrei⟩

/-- The clock at one half and at six fifths. -/
def halb : Waechter := { nachZweien with jetzt := 1 / 2 }
def sechsFuenftel : Waechter := { nachZweien with jetzt := 6 / 5 }

/-- The throttle at six fifths has forgotten the two buys at zero. -/
theorem hftErlaubt_sechsFuenftel : hftErlaubt regeln sechsFuenftel
    ((order "buy").record sechsFuenftel.jetzt) = true := by
  simp [hftErlaubt, hftHousekeep, sechsFuenftel, nachZweien, nachEinem, nachOrder,
    recordRecentTrade, frisch, Order.record, regeln]
  norm_num

theorem hftErlaubt_ueberholt :
    hftErlaubt regeln (nachOrder sechsFuenftel "buy") ((order "buy").record (1 / 2)) = true := by
  simp [hftErlaubt, hftHousekeep, sechsFuenftel, nachZweien, nachEinem, nachOrder,
    recordRecentTrade, frisch, Order.record, order, regeln]
  norm_num

/-- Two buys at zero.  A third call reads one half and waits, a fourth at six fifths
clears the buffer, and the third is approved. -/
theorem ueberholt_erreicht :
    ∃ p, ((system regeln).restrict (guarded UhrVorwaerts)).Reach p ∧
      genehmigte p.log = [(order "buy").record 0, (order "buy").record 0,
        (order "buy").record (6 / 5), (order "buy").record (1 / 2)] := by
  have hG : ∀ p i s, UhrVorwaerts p (.access i) s := fun p i s => by simp [UhrVorwaerts]
  have henter : ∀ p i c s, UhrVorwaerts p (.enter i c) s := fun p i c s => by simp [UhrVorwaerts]
  have heins := alone_reach (i := 0) (M := checkOrder regeln) (.start frisch_start)
    (solo_kauf (by simp [frisch]) (hftErlaubt_frisch "buy")) (henter _ _ _ _)
    fun _ _ _ _ => hG _ _ _
  have hzwei := alone_reach (i := 1) (M := checkOrder regeln) heins
    (solo_kauf recentTrades_nachEinem hftErlaubt_nachEinem) (henter _ _ _ _)
    fun _ _ _ _ => hG _ _ _
  have hhalb := System.Reach.step hzwei
    ⟨Machine.PoolStep.idle ⟨1 / 2, rfl⟩, fun _ => (by norm_num [nachEinem, nachOrder,
      recordRecentTrade, frisch] : (0 : ℚ) ≤ 1 / 2)⟩
  have hwartet := call_reach (M := checkOrder regeln) (i := 2) (c := order "buy") (s := halb)
    (r := .inl (.hftAbschnitt ((order "buy").record (1 / 2)))) hhalb rfl
    ((solo_snapshot (s := halb) "buy" (detectWashTrade_kauf recentTrades_nachZweien)).trans rfl
      (.next trivial .hftUhr .stop)) (henter _ _ _ _) fun _ _ _ _ => hG _ _ _
  have hspaeter := System.Reach.step hwartet
    ⟨Machine.PoolStep.idle ⟨6 / 5, rfl⟩, fun _ => (by norm_num : (1 / 2 : ℚ) ≤ 6 / 5)⟩
  have hvierter := call_reach (M := checkOrder regeln) (i := 3) hspaeter rfl
    (solo_kauf recentTrades_nachZweien hftErlaubt_sechsFuenftel) (henter _ _ _ _)
    fun _ _ _ _ => hG _ _ _
  have hdritter := solo_reach (M := checkOrder regeln) (i := 2) (c := order "buy") hvierter rfl
    (solo_abschnitt hftErlaubt_ueberholt) fun _ _ _ _ => hG _ _ _
  exact ⟨_, hdritter, rfl⟩

/-- Three orders in the first second, and the cap is two. -/
theorem drossel_ueberholt :
    ∃ p, ((system regeln).restrict (guarded UhrVorwaerts)).Reach p ∧ ¬Gedrosselt regeln p.log := by
  obtain ⟨p, hp, hlog⟩ := ueberholt_erreicht
  refine ⟨p, hp, fun h => ?_⟩
  have hfenster := h (.eines (some "global") (some "AAPL")) 0
  have hdrei : (Kreis.eines (some "global") (some "AAPL")).anzahl 0 (genehmigte p.log) = 3 := by
    rw [hlog]
    simp [Kreis.anzahl, List.countP_cons, Kreis.imFenster, Kreis.enthaelt, Order.record, order]
    norm_num
  rw [hdrei] at hfenster
  exact absurd hfenster (by decide)

end Beispiel

end Compliance
