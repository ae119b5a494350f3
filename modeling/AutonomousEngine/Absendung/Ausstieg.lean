import AutonomousEngine.Absendung.Moeglich

/-!
# Exits and their market fallbacks

A marketable limit exit may be followed by a market order, after a rejection or
after the timeout.  Both fallbacks are sized from what the run has seen: nothing
of a rejected order, and the last fill polled of a cancelled one.  Where that is
still true when the fallback is sent, the exit and its fallbacks never sell more
than the exit was for (`ausstieg_nie_zu_viel`).  An order whose submission has
raised may be at the broker though, and an order may fill after the last poll.
-/

namespace Absendung

open Basis
open Gateway (Auftrag)
open Verkauf (Quelle)

/-! ## What the orders of a run may fill -/

/-- The most an order can have filled in the end. -/
def Order.hoechstens (o : Order) : Rat := if o.offen then o.qty else o.filledQty

theorem Order.filledQty_le_hoechstens (o : Order) : o.filledQty ≤ o.hoechstens := by
  unfold hoechstens
  split
  next => exact o.filledQty_le
  next => exact le_rfl

theorem Order.hoechstens_le (o : Order) : o.hoechstens ≤ o.qty := by
  unfold hoechstens
  split
  next => exact le_rfl
  next => exact o.filledQty_le

theorem Order.Weiter.hoechstens_le {o o' : Order} (h : o.Weiter o') :
    o'.hoechstens ≤ o.hoechstens := by
  cases hoffen : o.offen with
  | true =>
      have hqty : o.hoechstens = o.qty := by simp [hoechstens, hoffen]
      exact (o'.hoechstens_le.trans_eq h.qty).trans_eq hqty.symm
  | false =>
      obtain ⟨hoffen', hfilled⟩ := h.beendet hoffen
      simp [hoechstens, hoffen, hoffen', hfilled]

/-- The filled quantity of an order of the event. -/
def Order.eigenGefuellt (o : Order) : Rat := if o.eigen then o.filledQty else 0

/-- The most an order of the event can have filled in the end. -/
def Order.eigenHoechstens (o : Order) : Rat := if o.eigen then o.hoechstens else 0

/-- What the orders of the event have filled. -/
def Buch.gefuellt (b : Buch) : Rat := (b.map Order.eigenGefuellt).sum

/-- The most they can have filled in the end. -/
def Buch.hoechstens (b : Buch) : Rat := (b.map Order.eigenHoechstens).sum

/-- Whether the orders of the event have all ended, with a fill. -/
structure Buch.Erledigt (b : Buch) (g : Rat) : Prop where
  beendet : ∀ o ∈ b, o.eigen = true → o.offen = false
  gefuellt : b.gefuellt = g

theorem Order.eigenHoechstens_nonneg (o : Order) : 0 ≤ o.eigenHoechstens := by
  unfold eigenHoechstens
  split
  next => exact o.filledQty_nonneg.trans o.filledQty_le_hoechstens
  next => exact le_rfl

theorem Buch.gefuellt_le_hoechstens (b : Buch) : b.gefuellt ≤ b.hoechstens := by
  refine List.sum_le_sum fun o _ => ?_
  unfold Order.eigenGefuellt Order.eigenHoechstens
  split
  next => exact o.filledQty_le_hoechstens
  next => exact le_rfl

theorem Buch.Erledigt.hoechstens {b : Buch} {g : Rat} (h : b.Erledigt g) : b.hoechstens = g := by
  rw [← h.gefuellt]
  refine congrArg List.sum (List.map_congr_left fun o ho => ?_)
  unfold Order.eigenHoechstens Order.eigenGefuellt
  split
  next heigen => simp [Order.hoechstens, h.beendet o ho heigen]
  next => rfl

theorem Buch.hoechstens_eq_zero {b : Buch} (h : ∀ o ∈ b, o.zweck = none) : b.hoechstens = 0 := by
  refine List.sum_eq_zero fun x hx => ?_
  obtain ⟨o, ho, rfl⟩ := List.mem_map.mp hx
  simp [Order.eigenHoechstens, Order.eigen, h o ho]

@[simp] theorem Buch.hoechstens_append (b b' : Buch) :
    Buch.hoechstens (b ++ b') = b.hoechstens + b'.hoechstens := by
  simp [Buch.hoechstens]

@[simp] theorem Buch.hoechstens_cons (o : Order) (b : Buch) :
    Buch.hoechstens (o :: b) = o.eigenHoechstens + b.hoechstens :=
  List.sum_cons

theorem Order.Weiter.eigenHoechstens_le {o o' : Order} (h : o.Weiter o') :
    o'.eigenHoechstens ≤ o.eigenHoechstens := by
  unfold Order.eigenHoechstens
  rw [h.eigen]
  split
  next => exact h.hoechstens_le
  next => exact le_rfl

/-- What the orders of the event can have filled never grows by itself. -/
theorem Buch.Weiter.hoechstens_le {b b' : Buch} (h : b.Weiter b') :
    b'.hoechstens ≤ b.hoechstens := by
  obtain ⟨alt, neu, rfl, halt, hneu⟩ := h
  rw [Buch.hoechstens_append, Buch.hoechstens_eq_zero hneu, add_zero]
  induction halt with
  | nil => exact le_rfl
  | cons ho _ ih =>
      rw [Buch.hoechstens_cons, Buch.hoechstens_cons]
      exact add_le_add ho.eigenHoechstens_le ih

/-- A new order adds its quantity at most. -/
theorem Buch.Platziert.hoechstens_le {b b' : Buch} {z : Zweck} {r : Auftrag}
    (h : b.Platziert z r b') (hz : z.eigen = true) : b'.hoechstens ≤ b.hoechstens + r.qty := by
  obtain ⟨hpos, rfl⟩ := h
  rw [Buch.hoechstens_append]
  refine add_le_add le_rfl (le_of_eq ?_)
  simp [Buch.hoechstens, Order.eigenHoechstens, Order.eigen, Order.neu, Order.hoechstens, hz]

theorem Buch.Platziert.hoechstens_eq {b b' : Buch} {z : Zweck} {r : Auftrag}
    (h : b.Platziert z r b') (hz : z.eigen = false) : b'.hoechstens = b.hoechstens := by
  obtain ⟨hpos, rfl⟩ := h
  rw [Buch.hoechstens_append]
  simp [Buch.hoechstens, Order.eigenHoechstens, Order.eigen, Order.neu, hz]

/-- An order that is taken over adds its quantity at most. -/
theorem Buch.hoechstens_nimm_le {b : Buch} {id : Nat} {z : Zweck} {q : Rat} (hq : 0 ≤ q)
    (h : ∀ o, b[id]? = some o → z.eigen = true → o.qty ≤ q) :
    (b.nimm id z).hoechstens ≤ b.hoechstens + q := by
  induction b generalizing id with
  | nil => simpa [Buch.nimm, Buch.hoechstens] using hq
  | cons o b ih =>
      cases id with
      | zero =>
          show Buch.hoechstens ({ o with zweck := some z } :: b) ≤ _
          rw [Buch.hoechstens_cons, Buch.hoechstens_cons]
          have hneu : Order.eigenHoechstens { o with zweck := some z } ≤ q := by
            unfold Order.eigenHoechstens
            split
            next hz => exact (Order.hoechstens_le _).trans (h o rfl hz)
            next => exact hq
          linarith [o.eigenHoechstens_nonneg]
      | succ id =>
          show Buch.hoechstens (o :: Buch.nimm b id z) ≤ _
          rw [Buch.hoechstens_cons, Buch.hoechstens_cons, add_assoc]
          exact add_le_add le_rfl (ih h)

/-! ## The condition -/

/-- What the run counts on when it sends a fallback or takes an order over: the
other orders of the event have ended, with the fill that it has seen.  The order
that is taken over is not too large, and the rest is not rounded up. -/
def Ueberblickt (b : Buch) : (i : Frage) → i.Antwort → Buch → Prop
  | .submitOrder (.nachAblehnung _) _, _, _ => b.Erledigt 0
  | .submitOrder (.nachFrist q g) _, _, _ => b.Erledigt g ∧ runde 6 (q - g) ≤ q - g
  | .uebernommen z id, _, _ => z.eigen = true →
      b.Erledigt z.verbraucht ∧ ∀ o, b[id]? = some o → o.qty ≤ z.bedarf
  | _, _, _ => True

/-! ## The invariant -/

/-- The orders of the event are covered by its size. -/
structure Gedeckt (x : Zwischenstand) (b : Buch) (l : Verlauf) : Prop where
  gesendet : ∀ q r a, ⟨.submitOrder (.auftrag q true) r, a⟩ ∈ l → x.groesse = some (q, true)
  nichts : x.eigen = .nichts → x.groesse = none
  leer : x.groesse = none → b.hoechstens = 0
  versuch : ∀ z f, x.eigen.versuch = some (z, f) →
    ∃ q l, x.groesse = some (q, l) ∧ (z = .auftrag q l ∨ z = .nachAblehnung q)
  gedeckt : ∀ q l, x.groesse = some (q, l) → 0 < q ∧ b.hoechstens ≤ q

theorem Gedeckt.weiter {x : Zwischenstand} {b b' : Buch} {l : Verlauf} (h : Gedeckt x b l)
    (hb : b'.hoechstens ≤ b.hoechstens) (h0 : 0 ≤ b'.hoechstens) : Gedeckt x b' l where
  gesendet := h.gesendet
  nichts := h.nichts
  leer hx := le_antisymm (hb.trans_eq (h.leer hx)) h0
  versuch := h.versuch
  gedeckt q l hx := ⟨(h.gedeckt q l hx).1, hb.trans (h.gedeckt q l hx).2⟩

theorem Buch.hoechstens_nonneg (b : Buch) : 0 ≤ b.hoechstens :=
  List.sum_nonneg fun _ hx => by
    obtain ⟨o, _, rfl⟩ := List.mem_map.mp hx
    exact o.eigenHoechstens_nonneg

/-- A step that is neither about the size nor about the order of the event. -/
theorem Gedeckt.gleich {x y : Zwischenstand} {b b' : Buch} {l : Verlauf} {i : Frage} {a : i.Antwort}
    (h : Gedeckt x b l) (hb : b'.hoechstens ≤ b.hoechstens) (heigen : y.eigen = x.eigen)
    (hgroesse : y.groesse = x.groesse) (hi : ∀ q r, i ≠ .submitOrder (.auftrag q true) r) :
    Gedeckt y b' (l ++ [⟨i, a⟩]) where
  gesendet q r a' hmem := by
    rw [hgroesse]
    rcases List.mem_append.mp hmem with hmem | hmem
    · exact h.gesendet q r a' hmem
    · exact absurd (Sigma.mk.inj (List.mem_singleton.mp hmem)).1.symm (hi q r)
  nichts := by rw [heigen, hgroesse]; exact h.nichts
  leer := by rw [hgroesse]; exact (h.weiter hb b'.hoechstens_nonneg).leer
  versuch := by rw [heigen, hgroesse]; exact h.versuch
  gedeckt := by rw [hgroesse]; exact (h.weiter hb b'.hoechstens_nonneg).gedeckt

theorem Gedeckt.fremd {x y : Zwischenstand} {b b' : Buch} {l : Verlauf} {z : Zweck} {r : Auftrag}
    {a : Except Fremdfehler Nat} (h : Gedeckt x b l) (hz : z.eigen = false)
    (ha : b.antwortet (.submitOrder z r) a b') (heigen : y.eigen = x.eigen)
    (hgroesse : y.groesse = x.groesse) : Gedeckt y b' (l ++ [⟨.submitOrder z r, a⟩]) := by
  refine h.gleich ?_ heigen hgroesse fun q r' he => ?_
  · rcases Buch.antwortet_submitOrder ha with rfl | hplatz
    · exact le_rfl
    · exact (hplatz.hoechstens_eq hz).le
  · injection he with hz'
    rw [hz'] at hz
    cases hz

/-- The size stays, and the orders of the event stay covered by it. -/
theorem Gedeckt.gedeckter {x y : Zwischenstand} {b b' : Buch} {l : Verlauf} {i : Frage}
    {a : i.Antwort} {q : Rat} {istLimit : Bool} (h : Gedeckt x b l)
    (hx : x.groesse = some (q, istLimit)) (hy : y.groesse = x.groesse) (hb : b'.hoechstens ≤ q)
    (hnichts : y.eigen ≠ .nichts) (hversuch : ∀ z f, y.eigen.versuch = some (z, f) →
      z = .auftrag q istLimit ∨ z = .nachAblehnung q)
    (hi : ∀ q r, i ≠ .submitOrder (.auftrag q true) r) : Gedeckt y b' (l ++ [⟨i, a⟩]) where
  gesendet q' r a' hmem := by
    rw [hy]
    rcases List.mem_append.mp hmem with hmem | hmem
    · exact h.gesendet q' r a' hmem
    · exact absurd (Sigma.mk.inj (List.mem_singleton.mp hmem)).1.symm (hi q' r)
  nichts hn := absurd hn hnichts
  leer hn := by rw [hy, hx] at hn; cases hn
  versuch z f hz := ⟨q, istLimit, hy.trans hx, hversuch z f hz⟩
  gedeckt q' l' hq := by
    rw [hy, hx] at hq
    obtain ⟨rfl, rfl⟩ := Prod.mk.inj (Option.some.inj hq)
    exact ⟨(h.gedeckt q istLimit hx).1, hb⟩

/-- A fallback fits in when the other orders have ended as the run has seen it. -/
theorem hoechstens_fallback {b b' : Buch} {z : Zweck} {r : Auftrag} {a : Except Fremdfehler Nat}
    {q g : Rat} (hz : z.eigen = true) (herledigt : b.Erledigt g) (hr : g + r.qty ≤ q)
    (hb : b.hoechstens ≤ q) (ha : b.antwortet (.submitOrder z r) a b') : b'.hoechstens ≤ q := by
  rcases Buch.antwortet_submitOrder ha with rfl | hplatz
  · exact hb
  · refine (hplatz.hoechstens_le hz).trans ?_
    rw [herledigt.hoechstens]
    exact hr

/-- An order that is taken over fits in under the same condition. -/
theorem hoechstens_uebernommen {b : Buch} {z : Zweck} {id : Nat} {q : Rat} (hz : z.eigen = true)
    (hG : Ueberblickt b (.uebernommen z id) () (b.nimm id z)) (hq : z.verbraucht + z.bedarf = q)
    (hb : b.hoechstens ≤ q) : (b.nimm id z).hoechstens ≤ q := by
  obtain ⟨herledigt, hle⟩ := hG hz
  have hsumme : b.hoechstens + z.bedarf = q := by rw [herledigt.hoechstens]; exact hq
  rw [← hsumme]
  refine Buch.hoechstens_nimm_le ?_ fun o ho _ => hle o ho
  linarith

theorem hoechstens_fremd {b b' : Buch} {z : Zweck} {id : Nat} (hz : z.eigen = false)
    (ha : b.antwortet (.uebernommen z id) () b') : b'.hoechstens ≤ b.hoechstens := by
  have hb' : b' = b.nimm id z := ha
  rw [hb', ← add_zero b.hoechstens]
  refine Buch.hoechstens_nimm_le le_rfl fun o _ h => ?_
  rw [hz] at h
  cases h

theorem Gedeckt.schritt {k : Rahmen} {x y : Zwischenstand} {b b' : Buch} {l : Verlauf} {i : Frage}
    {a : i.Antwort} (h : Gedeckt x b l) (hN : Schritt k x i a y) (ha : b.antwortet i a b')
    (hG : Ueberblickt b i a b') : Gedeckt y b' (l ++ [⟨i, a⟩]) := by
  have hgleich {y' : Zwischenstand} (hi : i.handelt = false) (heigen : y'.eigen = x.eigen)
      (hgroesse : y'.groesse = x.groesse) : Gedeckt y' b' (l ++ [⟨i, a⟩]) := by
    refine h.gleich ?_ heigen hgroesse fun q r he => ?_
    · rw [Buch.eq_of_antwortet hi ha]
    · rw [he] at hi
      cases hi
  cases hN with
  | still _ hi => exact hgleich (Frage.handelt_of_still hi) rfl rfl
  | @auftrag _ q istLimit r _ heigen _ hq hle =>
      have hleer := h.nichts heigen
      have hnull := h.leer hleer
      refine ⟨fun q' r' a' hmem => ?_, fun hn => absurd hn (Eigen.nach_ne_nichts _ _ _), nofun,
        fun z f hz => ⟨q, istLimit, rfl, .inl (Eigen.versuch_nach hz).1⟩, ?_⟩
      · rcases List.mem_append.mp hmem with hmem | hmem
        · rw [h.gesendet q' r' a' hmem] at hleer
          cases hleer
        · injection (Sigma.mk.inj (List.mem_singleton.mp hmem)).1 with hz
          obtain ⟨rfl, rfl⟩ := Zweck.auftrag.inj hz
          rfl
      · rintro q' l' hgroesse
        obtain ⟨rfl, rfl⟩ := Prod.mk.inj (Option.some.inj hgroesse)
        rcases Buch.antwortet_submitOrder ha with rfl | hplatz
        · exact ⟨hq, hnull.trans_le hq.le⟩
        · refine ⟨hq, (hplatz.hoechstens_le rfl).trans ?_⟩
          rw [hnull, zero_add]
          exact hle
  | @schatten _ q istLimit r a =>
      have hx : Gedeckt x b' (l ++ [⟨.submitSchatten (.auftrag q istLimit) r, a⟩]) :=
        hgleich rfl rfl rfl
      exact ⟨hx.gesendet, nofun, hx.leer, nofun, hx.gedeckt⟩
  | @nachAblehnung _ q r s d _ hgroesse heigen _ hle =>
      obtain ⟨hq, hb⟩ := h.gedeckt q true hgroesse
      exact h.gedeckter hgroesse rfl
        (hoechstens_fallback rfl hG (by rw [zero_add]; exact hle) hb ha) (Eigen.nach_ne_nichts _ _ _)
        (fun z f hz => .inr (Eigen.versuch_nach hz).1) nofun
  | @nachgeschlagen _ z f coid symbol _ heigen =>
      have hversuch : x.eigen.versuch = some (z, f) := by rw [heigen]; rfl
      obtain ⟨q, istLimit, hgroesse, hz⟩ := h.versuch z f hversuch
      have hb' : b' = b := Buch.eq_of_antwortet rfl ha
      refine h.gedeckter hgroesse rfl (hb' ▸ (h.gedeckt q istLimit hgroesse).2)
        (Eigen.nachgeschlagen_ne_nichts _ _ _) (fun z' f' hz' => ?_) nofun
      rw [Eigen.versuch_nachgeschlagen] at hz'
      obtain ⟨rfl, rfl⟩ := Prod.mk.inj (Option.some.inj hz')
      exact hz
  | @uebernommen _ z f id heigen hdup =>
      have hversuch : x.eigen.versuch = some (z, f) := by rw [heigen]; rfl
      obtain ⟨q, istLimit, hgroesse, hz⟩ := h.versuch z f hversuch
      obtain ⟨hq, hb⟩ := h.gedeckt q istLimit hgroesse
      have hb' : b' = b.nimm id z := ha
      refine h.gedeckter hgroesse rfl ?_ nofun nofun nofun
      rw [hb'] at hG ⊢
      rcases hz with rfl | rfl
      · exact hoechstens_uebernommen rfl hG (zero_add q) hb
      · exact hoechstens_uebernommen rfl hG (zero_add q) hb
  | @nachFrist _ q g r id st _ hgroesse heigen _ _ _ _ hle =>
      obtain ⟨hq, hb⟩ := h.gedeckt q true hgroesse
      obtain ⟨herledigt, hrund⟩ := hG
      refine h.gedeckter hgroesse rfl (hoechstens_fallback rfl herledigt ?_ hb ha) ?_ ?_ nofun
      · linarith
      · rw [heigen]; nofun
      · rw [heigen]; nofun
  | @nachFristUebernommen _ q g id hgroesse =>
      obtain ⟨hq, hb⟩ := h.gedeckt q true hgroesse
      have hb' : b' = b.nimm id (.nachFrist q g) := ha
      rw [hb'] at hG ⊢
      refine h.gedeckter hgroesse rfl
        (hoechstens_uebernommen rfl hG (add_sub_cancel g q) hb) ?_ ?_ nofun
      · intro hn
        rw [h.nichts hn] at hgroesse
        cases hgroesse
      · intro z f hz
        obtain ⟨q', l', hgroesse', hz'⟩ := h.versuch z f hz
        rw [hgroesse] at hgroesse'
        obtain ⟨rfl, rfl⟩ := Prod.mk.inj (Option.some.inj hgroesse')
        exact hz'
  | aufgeschoben => exact h.fremd rfl ha rfl rfl
  | verdraengung => exact h.fremd rfl ha rfl rfl
  | rueckkauf => exact h.fremd rfl ha rfl rfl
  | verdraengungUebernommen =>
      exact h.gleich (hoechstens_fremd rfl ha) rfl rfl fun _ _ he => by cases he
  | rueckkaufUebernommen =>
      exact h.gleich (hoechstens_fremd rfl ha) rfl rfl fun _ _ he => by cases he
  | _ => exact hgleich rfl rfl rfl

/-- A run whose fallbacks are sent on what is still true never fills more than its
exit was for. -/
theorem ausstieg_nie_zu_viel {u : Umfeld} {tenant : Tenant} {event : Signal} {source : Quelle}
    {c : Conf Buch Frage Frage.Antwort (Except Ende Bool)}
    (h : ((mandantenlauf u tenant event source).restrict (World.answers Ueberblickt)).Reach c)
    {q : Rat} {r : Auftrag} {a : Except Fremdfehler Nat}
    (hl : ⟨.submitOrder (.auftrag q true) r, a⟩ ∈ c.log) : c.store.gefuellt ≤ q := by
  have h0 : ∀ b, Unberuehrt b → Gedeckt {} b [] := fun b hb =>
    ⟨fun _ _ _ hl => absurd hl List.not_mem_nil, fun _ => rfl,
      fun _ => Buch.hoechstens_eq_zero hb, nofun, nofun⟩
  obtain ⟨x, hx, -⟩ := World.sound (I := Gedeckt) h0
    (fun hI hd => hI.weiter (Buch.Weiter.hoechstens_le hd) (Buch.hoechstens_nonneg _))
    (fun hI hN ha hG => hI.schritt hN ha hG)
    (executeTenantOrder_follows (rahmen_passt u event source) tenant) h
  exact c.store.gefuellt_le_hoechstens.trans (hx.gedeckt q true (hx.gesendet q r a hl)).2

/-! ## The fallback after the timeout -/

/-- Whether the run has asked for the cancellation of an order of the event. -/
def StornoVerlangt (l : Verlauf) (id : Nat) : Prop :=
  ∃ z a, z.eigen = true ∧ ⟨.cancelOrderById z id, a⟩ ∈ l

/-- A cancelled order is so in the log, and no fallback of the timeout comes before a
cancellation. -/
structure Storniertes (x : Zwischenstand) (l : Verlauf) : Prop where
  storniert : x.storniert = true → ∃ id, StornoVerlangt l id
  ersatz : ∀ l₁ l₂ q g r a, l = l₁ ++ ⟨.submitOrder (.nachFrist q g) r, a⟩ :: l₂ →
    ∃ id, StornoVerlangt l₁ id

theorem Storniertes.schritt {k : Rahmen} {x y : Zwischenstand} {l : Verlauf} {i : Frage}
    {a : i.Antwort} (h : Storniertes x l) (hN : Schritt k x i a y) :
    Storniertes y (l ++ [⟨i, a⟩]) := by
  have hmehr {P : Prop} (hx : P → ∃ id, StornoVerlangt l id) (hP : P) :
      ∃ id, StornoVerlangt (l ++ [⟨i, a⟩]) id := by
    obtain ⟨id, z, a', hz, hmem⟩ := hx hP
    exact ⟨id, z, a', hz, List.mem_append_left _ hmem⟩
  have hgleich (hi : ∀ q g r, i = .submitOrder (.nachFrist q g) r → ∃ id, StornoVerlangt l id)
      (hy : y.storniert = true → ∃ id, StornoVerlangt (l ++ [⟨i, a⟩]) id) :
      Storniertes y (l ++ [⟨i, a⟩]) := by
    refine ⟨hy, fun l₁ l₂ q g r a' hl => ?_⟩
    rcases split_snoc hl with ⟨l₃, hl⟩ | ⟨rfl, he⟩
    · exact h.ersatz l₁ l₃ q g r a' hl
    · exact hi q g r (Sigma.mk.inj he).1
  cases hN with
  | still _ hi =>
      refine hgleich (fun q g r he => ?_) (hmehr h.storniert)
      rw [he] at hi
      cases hi
  | @storno _ z id a heigen hz =>
      exact hgleich (fun _ _ _ he => by cases he)
        fun _ => ⟨id, z, a, hz, List.mem_append_right _ (List.mem_singleton.mpr rfl)⟩
  | nachFrist a hgroesse heigen hstorniert =>
      exact hgleich (fun _ _ _ _ => h.storniert hstorniert) (hmehr h.storniert)
  | _ => exact hgleich (fun _ _ _ he => by cases he) (hmehr h.storniert)

/-- Whatever the broker does, a fallback of the timeout follows a cancellation. -/
theorem ersatz_nach_storno {u : Umfeld} {tenant : Tenant} {event : Signal} {source : Quelle}
    {c : Conf Buch Frage Frage.Antwort (Except Ende Bool)}
    (h : (mandantenlauf u tenant event source).Reach c) {l₁ l₂ : Verlauf} {q g : Rat} {r : Auftrag}
    {a : Except Fremdfehler Nat} (hl : c.log = l₁ ++ ⟨.submitOrder (.nachFrist q g) r, a⟩ :: l₂) :
    ∃ id, StornoVerlangt l₁ id := by
  have h0 : Storniertes {} [] := ⟨nofun, fun l₁ _ _ _ _ _ hl => by cases l₁ <;> cases hl⟩
  obtain ⟨x, hx, -⟩ := World.sound (I := fun x _ l => Storniertes x l) (fun _ _ => h0)
    (fun hI _ => hI) (fun hI hN _ _ => hI.schritt hN)
    (executeTenantOrder_follows (rahmen_passt u event source) tenant) (World.reach_unconditional h)
  exact hx.ersatz l₁ l₂ q g r a hl

/-! ## Examples -/

/-- What an exit of ten shares has asked the broker that raises at first. -/
def Nachgeschickt (statusCode : Option Nat) (l : Verlauf) : Prop :=
  ∃ r r' id, ⟨.submitOrder (.auftrag 10 true) r, .error (.apiError statusCode false)⟩ ∈ l ∧
    ⟨.submitOrder (.nachAblehnung 10) r', .ok id⟩ ∈ l

/-- The broker rejects the exit, and its fallback is sent. -/
theorem ausstieg_nie_zu_viel_abgelehnt : ∃ c : Conf Buch Frage Frage.Antwort (Except Ende Bool),
    Nachgeschickt (some 422) c.log ∧ c.store.gefuellt ≤ 10 := by
  have hG : Offen Ueberblickt := fun _ i _ _ hi => by
    cases i with
    | submitOrder => cases hi
    | uebernommen => cases hi
    | _ => exact trivial
  have hcan : welt.Can Ueberblickt (fun _ => Nachgeschickt (some 422))
      (executeTenantOrder (beispielUmfeld false) beispielTenant (beispielSignal .sell) .ai)
      (fun _ _ => Nachgeschickt (some 422)) (fun _ _ => Nachgeschickt (some 422)) [] [] := by
    refine can_ausstieg hG rfl rfl rfl (by decide) (by norm_num [beispielSignal]) ⟨10, 100⟩ 10
      (freigegebeneMenge_ai _ _) (by norm_num) trivial trivial (some 422) fun r _ _ => ?_
    refine ⟨[], .inl rfl, trivial, fun r' hr' _ => ?_⟩
    have hpos : 0 < r'.qty := by rw [hr']; norm_num
    refine ⟨_, ⟨⟨hpos, rfl⟩, rfl⟩, ⟨fun _ ho => absurd ho List.not_mem_nil, rfl⟩,
      fun l _ hmem hmem' => ?_⟩
    exact ⟨_, Buch.weiter_map _ Order.weiter_ausgefuehrt, r, r', _, hmem, hmem'⟩
  obtain ⟨c, hc, r, r', id, hmem, hmem'⟩ := mandantenlauf_reach hcan
  exact ⟨c, ⟨r, r', id, hmem, hmem'⟩, ausstieg_nie_zu_viel hc hmem⟩

/-- The answer to the exit is lost, and the exit and its fallback both fill. -/
theorem ausstieg_doppelt : ∃ c, (mandantenlauf (beispielUmfeld false) beispielTenant
    (beispielSignal .sell) .ai).Reach c ∧ Nachgeschickt (some 504) c.log ∧
      10 < c.store.gefuellt := by
  refine mandantenlauf_reach_frei (T := fun b l => Nachgeschickt (some 504) l ∧ 10 < b.gefuellt) ?_
  refine can_ausstieg offen_true rfl rfl rfl (by decide) (by norm_num [beispielSignal]) ⟨10, 100⟩ 10
    (freigegebeneMenge_ai _ _) (by norm_num) trivial trivial (some 504) fun r hr _ => ?_
  have hpos : 0 < r.qty := by rw [hr]; norm_num
  refine ⟨_, .inr ⟨hpos, rfl⟩, trivial, fun r' hr' _ => ?_⟩
  have hpos' : 0 < r'.qty := by rw [hr']; norm_num
  refine ⟨_, ⟨⟨hpos', rfl⟩, rfl⟩, trivial, fun l _ hmem hmem' => ?_⟩
  refine ⟨_, Buch.weiter_map _ Order.weiter_ausgefuehrt, ⟨r, r', _, hmem, hmem'⟩, ?_⟩
  norm_num [Buch.gefuellt, Order.eigenGefuellt, Order.eigen, Order.ausgefuehrt, Order.neu,
    Zweck.eigen, hr, hr']

end Absendung
