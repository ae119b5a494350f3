import AutonomousEngine.Absendung.Ausstieg
import AutonomousEngine.Absendung.Desktop

/-!
# The slot of the daily budget

An order without a human reserves a slot before it is sent, and gives it back when
it was rejected or cancelled unfilled.  A tenant decides on the fill that the last
poll has shown, and the order may fill after it.  The desktop gives a slot back
for an exit that the budget exempts, and that has never taken one.

Where an order that was last seen unfilled before its cancellation stays so, an
order that the broker rejects is not in its book, and no position exempts the order
from the budget, slots are given back as they should (`platz_treu`).
-/

namespace Absendung

open Basis
open Gateway (Auftrag)

/-! ## The runs -/

/-- The path of an order without a human. -/
inductive Pfad where
  | mandant (tenant : Tenant)
  | desktop (d : Desktop)

def autonomerLauf (u : Umfeld) (event : Signal) : Pfad → Lauf Unit
  | .mandant tenant => do
      let _ ← executeTenantOrder u tenant event .ai
  | .desktop d => processSignalEvent u d event

def autonomeLaeufe (u : Umfeld) (event : Signal) (pfad : Pfad) :
    System (Conf Buch Frage Frage.Antwort (Except Ende Unit)) (Option (Σ i, Frage.Antwort i)) :=
  welt.run Unberuehrt (autonomerLauf u event pfad).run

def Pfad.rahmen (u : Umfeld) (event : Signal) : Pfad → Rahmen
  | .mandant _ => Absendung.rahmen u event
  | .desktop d => desktopRahmen u d event

theorem autonomerLauf_follows (u : Umfeld) (event : Signal) (pfad : Pfad) :
    (autonomerLauf u event pfad).run.Follows (Schritt (pfad.rahmen u event)) (fun _ _ => True) {} := by
  cases pfad with
  | mandant tenant =>
      refine follows_run.mpr (meets_bind.mpr ?_)
      exact (executeTenantOrder_meets (rahmen_passt u event .ai)).mono (fun _ _ _ => trivial)
        fun _ _ _ => trivial
  | desktop d => exact processSignalEvent_follows u d event

/-! ## The property -/

/-- Whether a question with its answer gives a slot back. -/
def gibtFrei : (Σ i : Frage, i.Antwort) → Bool
  | ⟨.slotFreigeben _, _⟩ => true
  | _ => false

/-- A slot is given back at most once, and after it was taken.  The orders of the
event never fill, and no submission of it has an unknown outcome. -/
structure Platztreu (b : Buch) (l : Verlauf) : Prop where
  einmal : l.countP gibtFrei ≤ 1
  belegt : ∀ l₁ l₂ anlass, l = l₁ ++ ⟨.slotFreigeben anlass, ()⟩ :: l₂ → ⟨.slotBelegen none, ()⟩ ∈ l₁
  ungefuellt : ∀ anlass, ⟨.slotFreigeben anlass, ()⟩ ∈ l → ∀ o ∈ b, o.eigen = true → o.filledQty = 0
  bekannt : ∀ anlass, ⟨.slotFreigeben anlass, ()⟩ ∈ l → ∀ z r f, z.eigen = true →
    ⟨.submitOrder z r, .error f⟩ ∈ l → istAblehnung (.fremd f) = true

/-- What a question with its answer leaves as the last state seen of the order. -/
def nachFrage (gesehen : Option Orderstand) : (Σ i : Frage, i.Antwort) → Option Orderstand
  | ⟨.getOrderById z _, a⟩ => if z.eigen then nachAbfrage gesehen a else gesehen
  | _ => gesehen

/-- What the last poll of the order has shown. -/
def zuletztGesehen (l : Verlauf) : Option Orderstand := l.foldl nachFrage none

theorem zuletztGesehen_concat (l : Verlauf) (e : Σ i : Frage, i.Antwort) :
    zuletztGesehen (l ++ [e]) = nachFrage (zuletztGesehen l) e := by
  simp [zuletztGesehen]

/-- What the broker answers.  A rejected order is not in the book, an order that is
cancelled and was last seen unfilled is still unfilled, and when a slot is given back
no position that the run has read exempts its order. -/
def Freigebbar (k : Rahmen) (l : Verlauf) (b : Buch) : (i : Frage) → i.Antwort → Buch → Prop
  | .submitOrder z _, .error f, b' => z.eigen = true → istAblehnung (.fremd f) = true → b' = b
  | .cancelOrderById z id, _, _ => z.eigen = true → ∀ st, zuletztGesehen l = some st →
      liesWert st.filledQty = some 0 → ∀ o, b[id]? = some o → o.filledQty = 0
  | .slotFreigeben _, _, _ => ∀ symbol a, ⟨.bestand symbol, a⟩ ∈ l → k.ausgenommen a = false
  | _, _, _ => True

/-- An order that was last seen unfilled and whose cancellation was asked for does not
begin to fill. -/
def Storniert (l : Verlauf) (b b' : Buch) : Prop :=
  ∀ st, zuletztGesehen l = some st → liesWert st.filledQty = some 0 → ∀ id, StornoVerlangt l id →
    ∀ o o', b[id]? = some o → b'[id]? = some o' → o.filledQty = 0 → o'.filledQty = 0

/-! ## The log -/

/-- What the log says of the slots that are given back. -/
structure Platzbuch (l : Verlauf) : Prop where
  einmal : l.countP gibtFrei ≤ 1
  belegt : ∀ l₁ l₂ anlass, l = l₁ ++ ⟨.slotFreigeben anlass, ()⟩ :: l₂ → ⟨.slotBelegen none, ()⟩ ∈ l₁
  bekannt : ∀ anlass, ⟨.slotFreigeben anlass, ()⟩ ∈ l → ∀ z r f, z.eigen = true →
    ⟨.submitOrder z r, .error f⟩ ∈ l → istAblehnung (.fremd f) = true

theorem Platzbuch.of_nicht {l : Verlauf} (h : ∀ anlass, ⟨.slotFreigeben anlass, ()⟩ ∉ l) :
    Platzbuch l where
  einmal := by
    refine (List.countP_eq_zero.mpr fun e he hfrei => ?_).le.trans zero_le_one
    obtain ⟨i, a⟩ := e
    cases i with
    | slotFreigeben anlass => exact h anlass he
    | _ => cases hfrei
  belegt l₁ l₂ anlass hl := absurd (by rw [hl]; simp) (h anlass)
  bekannt anlass hmem := absurd hmem (h anlass)

/-- Why a slot was given back: the order was cancelled and last seen unfilled, or was
rejected. -/
def Erstattungsgrund (x : Zwischenstand) : Prop :=
  (∃ id st, x.eigen = .da id ∧ x.storniert = true ∧ x.gesehen = some st ∧
    liesWert st.filledQty = some 0) ∨
  ∃ z f, x.eigen = .gescheitert z f ∧ istAblehnung (.fremd f) = true

theorem istAblehnung_of_istDuplikat {f : Fremdfehler} (h : istDuplikat f = true) :
    istAblehnung (.fremd f) = true := by
  cases f with
  | sonst => cases h
  | apiError statusCode bekannt =>
      simp only [istDuplikat, Bool.and_eq_true, beq_iff_eq] at h
      obtain ⟨rfl, -⟩ := h
      rfl

/-- The log agrees with the summary.  After a slot was given back, the order is over. -/
structure Verbucht (k : Rahmen) (x : Zwischenstand) (l : Verlauf) : Prop where
  belegt : x.belegt = true → ⟨.slotBelegen none, ()⟩ ∈ l
  ausgenommen : x.ausgenommen = true → ∃ symbol a, ⟨.bestand symbol, a⟩ ∈ l ∧ k.ausgenommen a = true
  gesehen : x.gesehen = zuletztGesehen l
  nichts : x.eigen = .nichts → x.groesse = none ∧
    ∀ z r a, z.eigen = true → ⟨.submitOrder z r, a⟩ ∉ l
  fehler : ∀ q, x.groesse = some (q, false) → ∀ z r f, z.eigen = true →
    ⟨.submitOrder z r, .error f⟩ ∈ l → istDuplikat f = true ∨ ∃ z', x.eigen.versuch = some (z', f)
  offen : x.erstattet = false → ∀ anlass, ⟨.slotFreigeben anlass, ()⟩ ∉ l
  fertig : x.erstattet = true → (∃ q, x.groesse = some (q, false)) ∧ Erstattungsgrund x
  platz : Platzbuch l

section

variable {k : Rahmen} {x y : Zwischenstand} {b b' : Buch} {l : Verlauf} {i : Frage} {a : i.Antwort}

/-- A question that is neither about the order of the event nor about a slot that is
given back. -/
theorem Platzbuch.gleich (h : Platzbuch l) (hi : ∀ z r, z.eigen = true → i ≠ .submitOrder z r)
    (hfrei : ∀ anlass, i ≠ .slotFreigeben anlass) : Platzbuch (l ++ [⟨i, a⟩]) where
  einmal := by
    have hnicht : gibtFrei ⟨i, a⟩ = false := by
      cases i with
      | slotFreigeben anlass => exact absurd rfl (hfrei anlass)
      | _ => rfl
    rw [List.countP_append, List.countP_singleton, hnicht]
    exact h.einmal
  belegt l₁ l₂ anlass hl := by
    rcases split_snoc hl with ⟨l₃, hl⟩ | ⟨-, he⟩
    · exact h.belegt l₁ l₃ anlass hl
    · exact absurd (Sigma.mk.inj he).1 (hfrei anlass)
  bekannt anlass hmem z r f hz hf := by
    rcases mem_snoc.mp hmem with hmem | he
    · rcases mem_snoc.mp hf with hf | he
      · exact h.bekannt anlass hmem z r f hz hf
      · exact absurd (Sigma.mk.inj he).1.symm (hi z r hz)
    · exact absurd (Sigma.mk.inj he).1.symm (hfrei anlass)

theorem Verbucht.gleich (h : Verbucht k x l) (heigen : y.eigen = x.eigen)
    (hgroesse : y.groesse = x.groesse) (herstattet : y.erstattet = x.erstattet)
    (hbelegt : y.belegt = true → x.belegt = true ∨ i = .slotBelegen none)
    (hausgenommen : y.ausgenommen = true → x.ausgenommen = true ∨
      ∃ symbol, i = .bestand symbol ∧ ∃ a', HEq a a' ∧ k.ausgenommen a' = true)
    (hgesehen : y.gesehen = nachFrage x.gesehen ⟨i, a⟩)
    (hgrund : x.erstattet = true → Erstattungsgrund x → Erstattungsgrund y)
    (hi : ∀ z r, z.eigen = true → i ≠ .submitOrder z r)
    (hfrei : ∀ anlass, i ≠ .slotFreigeben anlass) : Verbucht k y (l ++ [⟨i, a⟩]) where
  belegt hy := by
    rcases hbelegt hy with hx | rfl
    · exact List.mem_append_left _ (h.belegt hx)
    · exact List.mem_append_right _ (List.mem_singleton.mpr rfl)
  ausgenommen hy := by
    rcases hausgenommen hy with hx | ⟨symbol, rfl, a', ha', haus⟩
    · obtain ⟨symbol, a', hmem, haus⟩ := h.ausgenommen hx
      exact ⟨symbol, a', List.mem_append_left _ hmem, haus⟩
    · exact ⟨symbol, a', List.mem_append_right _ (List.mem_singleton.mpr (by rw [eq_of_heq ha'])), haus⟩
  gesehen := by rw [hgesehen, h.gesehen, zuletztGesehen_concat]
  nichts hy := by
    obtain ⟨hnone, hnicht⟩ := h.nichts (heigen ▸ hy)
    refine ⟨hgroesse.trans hnone, fun z r a' hz hmem => ?_⟩
    rcases mem_snoc.mp hmem with hmem | he
    · exact hnicht z r a' hz hmem
    · exact hi z r hz (Sigma.mk.inj he).1.symm
  fehler q hq z r f hz hmem := by
    rw [heigen]
    rcases mem_snoc.mp hmem with hmem | he
    · exact h.fehler q (hgroesse ▸ hq) z r f hz hmem
    · exact absurd (Sigma.mk.inj he).1.symm (hi z r hz)
  offen hy anlass hmem := by
    rcases mem_snoc.mp hmem with hmem | he
    · exact h.offen (herstattet ▸ hy) anlass hmem
    · exact hfrei anlass (Sigma.mk.inj he).1.symm
  fertig hy := by
    rw [herstattet] at hy
    obtain ⟨hq, hgrund'⟩ := h.fertig hy
    exact ⟨hgroesse ▸ hq, hgrund hy hgrund'⟩
  platz := h.platz.gleich hi hfrei

/-- A step on the order of the event, which comes before a slot is given back. -/
theorem Verbucht.eigenes (h : Verbucht k x l) (hx : x.erstattet = false)
    (herstattet : y.erstattet = x.erstattet) (hbelegt : y.belegt = x.belegt)
    (hausgenommen : y.ausgenommen = x.ausgenommen)
    (hgesehen : y.gesehen = nachFrage x.gesehen ⟨i, a⟩) (hnichts : y.eigen ≠ .nichts)
    (hfehler : ∀ q, y.groesse = some (q, false) → ∀ z r f, z.eigen = true →
      ⟨.submitOrder z r, .error f⟩ ∈ l ++ [⟨i, a⟩] →
      istDuplikat f = true ∨ ∃ z', y.eigen.versuch = some (z', f))
    (hfrei : ∀ anlass, i ≠ .slotFreigeben anlass) : Verbucht k y (l ++ [⟨i, a⟩]) := by
  have hoffen (anlass : Anlass) : ⟨.slotFreigeben anlass, ()⟩ ∉ l ++ [⟨i, a⟩] := by
    intro hmem
    rcases mem_snoc.mp hmem with hmem | he
    · exact h.offen hx anlass hmem
    · exact hfrei anlass (Sigma.mk.inj he).1.symm
  refine ⟨fun hy => ?_, fun hy => ?_, ?_, fun hy => absurd hy hnichts, hfehler, fun _ => hoffen,
    fun hy => ?_, .of_nicht hoffen⟩
  · exact List.mem_append_left _ (h.belegt (hbelegt ▸ hy))
  · obtain ⟨symbol, a', hmem, haus⟩ := h.ausgenommen (hausgenommen ▸ hy)
    exact ⟨symbol, a', List.mem_append_left _ hmem, haus⟩
  · rw [hgesehen, h.gesehen, zuletztGesehen_concat]
  · rw [herstattet, hx] at hy
    cases hy

theorem Verbucht.erstatte {anlass : Anlass} (h : Verbucht k x l) (hx : x.erstattet = false)
    (hplatz : x.belegt = true ∨ x.ausgenommen = true) (hfest : ∃ q, x.groesse = some (q, false))
    (hgrund : Erstattungsgrund x)
    (hG : ∀ symbol a, ⟨.bestand symbol, a⟩ ∈ l → k.ausgenommen a = false) :
    Verbucht k { x with erstattet := true } (l ++ [⟨.slotFreigeben anlass, ()⟩]) := by
  have hmem : ⟨.slotBelegen none, ()⟩ ∈ l := by
    rcases hplatz with hplatz | hplatz
    · exact h.belegt hplatz
    · obtain ⟨symbol, a', hmem, haus⟩ := h.ausgenommen hplatz
      rw [hG symbol a' hmem] at haus
      cases haus
  have hbekannt (z : Zweck) (r : Auftrag) (f : Fremdfehler) (hz : z.eigen = true)
      (hf : ⟨.submitOrder z r, .error f⟩ ∈ l) : istAblehnung (.fremd f) = true := by
    obtain ⟨q, hq⟩ := hfest
    rcases h.fehler q hq z r f hz hf with hdup | ⟨z', hz'⟩
    · exact istAblehnung_of_istDuplikat hdup
    · rcases hgrund with ⟨id, st, hda, -⟩ | ⟨z₁, f₁, hgesch, habl⟩
      · rw [hda] at hz'; cases hz'
      · rw [hgesch] at hz'
        obtain ⟨-, rfl⟩ := Prod.mk.inj (Option.some.inj hz')
        exact habl
  refine ⟨fun hy' => ?_, fun hy' => ?_, ?_, fun hy' => ?_, fun q hq z r f hz hf => ?_, fun hy' => ?_,
    fun _ => ⟨hfest, hgrund⟩, ⟨?_, fun l₁ l₂ anlass' hl => ?_, fun _ _ z r f hz hf => ?_⟩⟩
  · exact List.mem_append_left _ hmem
  · obtain ⟨symbol, a', hmem, haus⟩ := h.ausgenommen hy'
    exact ⟨symbol, a', List.mem_append_left _ hmem, haus⟩
  · rw [zuletztGesehen_concat]
    exact h.gesehen
  · obtain ⟨q, hq⟩ := hfest
    rw [(h.nichts hy').1] at hq
    cases hq
  · exact h.fehler q hq z r f hz ((mem_snoc.mp hf).resolve_right fun he => by cases he)
  · cases hy'
  · have hkeine : l.countP gibtFrei = 0 := by
      refine List.countP_eq_zero.mpr fun e he hfrei => ?_
      obtain ⟨i, a⟩ := e
      cases i with
      | slotFreigeben anlass => exact h.offen hx anlass he
      | _ => cases hfrei
    rw [List.countP_append, hkeine]
    exact le_rfl
  · rcases split_snoc hl with ⟨l₃, rfl⟩ | ⟨rfl, -⟩
    · exact absurd (by simp) (h.offen hx anlass')
    · exact hmem
  · exact hbekannt z r f hz ((mem_snoc.mp hf).resolve_right fun he => by cases he)

theorem Verbucht.schritt (h : Verbucht k x l) (hN : Schritt k x i a y) (ha : b.antwortet i a b')
    (hG : Freigebbar k l b i a b') : Verbucht k y (l ++ [⟨i, a⟩]) := by
  -- the steps that come before a slot is given back
  have hvorher (hx : (∃ z f, x.eigen = .gesucht z f) ∨ (∃ z f id, x.eigen = .gefunden z f id) ∨
      x.eigen = .nichts ∨ ∃ q, x.groesse = some (q, true)) : x.erstattet = false := by
    cases herstattet : x.erstattet with
    | false => rfl
    | true =>
      obtain ⟨⟨q, hq⟩, hgrund⟩ := h.fertig herstattet
      have heigen : (∃ id, x.eigen = .da id) ∨ ∃ z f, x.eigen = .gescheitert z f := by
        rcases hgrund with ⟨id, _, hid, -⟩ | ⟨z, f, hf, -⟩
        · exact .inl ⟨id, hid⟩
        · exact .inr ⟨z, f, hf⟩
      rcases hx with ⟨z, f, hx⟩ | ⟨z, f, id, hx⟩ | hx | ⟨q', hq'⟩
      · rw [hx] at heigen
        obtain ⟨_, hid⟩ | ⟨_, _, hf⟩ := heigen
        · cases hid
        · cases hf
      · rw [hx] at heigen
        obtain ⟨_, hid⟩ | ⟨_, _, hf⟩ := heigen
        · cases hid
        · cases hf
      · rw [(h.nichts hx).1] at hq; cases hq
      · rw [hq'] at hq; cases hq
  have hgleich {y' : Zwischenstand} (hi : ∀ z r, z.eigen = true → i ≠ .submitOrder z r)
      (heigen : y'.eigen = x.eigen) (hgroesse : y'.groesse = x.groesse)
      (herstattet : y'.erstattet = x.erstattet) (hbelegt : y'.belegt = x.belegt)
      (hausgenommen : y'.ausgenommen = x.ausgenommen) (hgesehen : y'.gesehen = x.gesehen)
      (hstorniert : y'.storniert = x.storniert) (hfrage : nachFrage x.gesehen ⟨i, a⟩ = x.gesehen)
      (hfrei : ∀ anlass, i ≠ .slotFreigeben anlass) : Verbucht k y' (l ++ [⟨i, a⟩]) := by
    refine h.gleich heigen hgroesse herstattet (fun hy => .inl (hbelegt ▸ hy))
      (fun hy => .inl (hausgenommen ▸ hy)) (hgesehen.trans hfrage.symm) (fun _ hgrund => ?_) hi hfrei
    unfold Erstattungsgrund at hgrund ⊢
    rw [heigen, hgesehen, hstorniert]
    exact hgrund
  cases hN with
  | still _ hi =>
      refine hgleich (fun z r _ he => ?_) rfl rfl rfl rfl rfl rfl rfl ?_ fun anlass he => ?_
      · rw [he] at hi
        cases hi
      · cases i with
        | getOrderById => cases hi
        | _ => rfl
      · rw [he] at hi
        cases hi
  | bestand _ _ =>
      exact h.gleich rfl rfl rfl .inl (fun hy => .inr ⟨_, rfl, _, .rfl, hy⟩) rfl
        (fun _ hgrund => hgrund) (fun _ _ _ he => by cases he) nofun
  | belegen _ _ =>
      exact h.gleich rfl rfl rfl (fun _ => .inr rfl) .inl rfl (fun _ hgrund => hgrund)
        (fun _ _ _ he => by cases he) nofun
  | @auftrag _ q istLimit r a heigen =>
      refine h.eigenes (hvorher (.inr (.inr (.inl heigen)))) rfl rfl rfl rfl
        (Eigen.nach_ne_nichts _ _ _) (fun q' _ z r' f hz hf => ?_) nofun
      rcases mem_snoc.mp hf with hf | he
      · exact absurd hf ((h.nichts heigen).2 z r' _ hz)
      · cases he
        exact .inr ⟨_, Eigen.versuch_nach_error _ _ _⟩
  | @schatten _ q istLimit r a heigen =>
      refine h.eigenes (hvorher (.inr (.inr (.inl heigen)))) rfl rfl rfl rfl nofun
        (fun q' hq' => ?_) nofun
      rw [(h.nichts heigen).1] at hq'
      cases hq'
  | @nachAblehnung _ q r s d a hgroesse =>
      refine h.eigenes (hvorher (.inr (.inr (.inr ⟨q, hgroesse⟩)))) rfl rfl rfl rfl
        (Eigen.nach_ne_nichts _ _ _) (fun q' hq' => ?_) nofun
      rw [hgroesse] at hq'
      cases hq'
  | @nachgeschlagen _ z f coid symbol a heigen =>
      refine h.eigenes (hvorher (.inl ⟨z, f, heigen⟩)) rfl rfl rfl rfl
        (Eigen.nachgeschlagen_ne_nichts _ _ _) (fun q' hq' z' r' f' hz' hf' => ?_) nofun
      have hf := h.fehler q' hq' z' r' f' hz' ((mem_snoc.mp hf').resolve_right nofun)
      rw [heigen] at hf
      rw [Eigen.versuch_nachgeschlagen]
      exact hf
  | @uebernommen _ z f id heigen hdup =>
      refine h.eigenes (hvorher (.inr (.inl ⟨z, f, id, heigen⟩))) rfl rfl rfl rfl nofun
        (fun q' hq' z' r' f' hz' hf' => .inl ?_) nofun
      rcases h.fehler q' hq' z' r' f' hz' ((mem_snoc.mp hf').resolve_right nofun) with hf | ⟨z'', hf⟩
      · exact hf
      · rw [heigen] at hf
        obtain ⟨-, rfl⟩ := Prod.mk.inj (Option.some.inj hf)
        exact hdup
  | @gesehen _ z id a heigen hstorniert hz =>
      refine h.gleich rfl rfl rfl .inl .inl (if_pos hz).symm (fun _ hgrund => ?_)
        (fun _ _ _ he => by cases he) nofun
      -- the order of a refund that was polled has its cancellation behind it
      rcases hgrund with ⟨_, _, -, hst, -⟩ | hgescheitert
      · rw [hstorniert] at hst
        cases hst
      · exact .inr hgescheitert
  | @storno _ z id a heigen hz =>
      refine h.gleich rfl rfl rfl .inl .inl rfl (fun _ hgrund => ?_) (fun _ _ _ he => by cases he)
        nofun
      rcases hgrund with ⟨id', st, hid, -, hst⟩ | hgescheitert
      · exact .inl ⟨id', st, hid, rfl, hst⟩
      · exact .inr hgescheitert
  | @nachFrist _ q g r id st a hgroesse heigen =>
      refine h.eigenes (hvorher (.inr (.inr (.inr ⟨q, hgroesse⟩)))) rfl rfl rfl rfl
        (by rw [heigen]; nofun) (fun q' hq' => ?_) nofun
      rw [hgroesse] at hq'
      cases hq'
  | @nachFristUebernommen _ q g id hgroesse =>
      refine h.eigenes (hvorher (.inr (.inr (.inr ⟨q, hgroesse⟩)))) rfl rfl rfl rfl ?_
        (fun q' hq' => ?_) nofun
      · intro hn
        rw [(h.nichts hn).1] at hgroesse
        cases hgroesse
      · rw [hgroesse] at hq'
        cases hq'
  | @abgelehnt _ q z s bekannt hx hplatz hgroesse heigen h400 h500 =>
      exact h.erstatte hx hplatz ⟨q, hgroesse⟩
        (.inr ⟨z, _, heigen, istAblehnung_iff.mpr ⟨s, bekannt, rfl, h400, h500⟩⟩) hG
  | @ungefuellt _ q id st hx hbelegt hgroesse heigen hstorniert hgesehen hnull =>
      exact h.erstatte hx (.inl hbelegt) ⟨q, hgroesse⟩
        (.inl ⟨id, st, heigen, hstorniert, hgesehen, hnull⟩) hG
  | aufgeschoben =>
      exact hgleich (fun _ _ hz he => by cases he; cases hz) rfl rfl rfl rfl rfl rfl rfl rfl nofun
  | verdraengung =>
      exact hgleich (fun _ _ hz he => by cases he; cases hz) rfl rfl rfl rfl rfl rfl rfl rfl nofun
  | rueckkauf =>
      exact hgleich (fun _ _ hz he => by cases he; cases hz) rfl rfl rfl rfl rfl rfl rfl rfl nofun
  | _ => exact hgleich (fun _ _ _ he => by cases he) rfl rfl rfl rfl rfl rfl rfl rfl nofun

/-! ## The book -/

/-- No order of the book has become one of the event. -/
def Buch.Fremd (b b' : Buch) : Prop :=
  ∀ (id : Nat) (o' : Order), b'[id]? = some o' → o'.eigen = true → ∃ o, b[id]? = some o ∧ o.eigen = true

theorem Buch.fremd_submitOrder {z : Zweck} {r : Auftrag} {a : Except Fremdfehler Nat}
    (hz : z.eigen = false) (ha : b.antwortet (.submitOrder z r) a b') : b.Fremd b' := by
  intro id o ho heigen
  rcases Buch.antwortet_submitOrder ha with rfl | hplatz
  · exact ⟨o, ho, heigen⟩
  · rcases hplatz.of_getElem? ho with ho | ⟨-, hzweck⟩
    · exact ⟨o, ho, heigen⟩
    · rw [Order.eigen, hzweck, Option.any_some, hz] at heigen
      cases heigen

theorem Buch.fremd_uebernommen {z : Zweck} {id : Nat} {a : Unit} (hz : z.eigen = false)
    (ha : b.antwortet (.uebernommen z id) a b') : b.Fremd b' := by
  intro j o' ho' heigen
  obtain rfl : b' = b.nimm id z := ha
  obtain ⟨o, ho, rfl | ⟨-, hzweck⟩⟩ := Buch.of_getElem?_nimm ho'
  · exact ⟨o', ho, heigen⟩
  · rw [Order.eigen, hzweck, Option.any_some, hz] at heigen
    cases heigen

/-- The book agrees with the summary.  Of an order that is no limit exit the run has the
only one of the event, unless its submission has raised without a rejection.  An order
that was last seen unfilled before its cancellation is unfilled. -/
structure Gebucht (x : Zwischenstand) (b : Buch) (l : Verlauf) : Prop where
  eigenes : (x.eigen = .nichts ∨ ∃ q, x.groesse = some (q, false)) →
    ∀ id o, b[id]? = some o → o.eigen = true → x.eigen = .da id ∨
      ∃ z f, x.eigen.versuch = some (z, f) ∧ istAblehnung (.fremd f) = false
  da : ∀ id, x.eigen = .da id → ∃ o, b[id]? = some o
  gefunden : ∀ z f id, x.eigen = .gefunden z f id → ∃ o, b[id]? = some o
  storniert : x.storniert = true → ∃ id o, x.eigen = .da id ∧ b[id]? = some o ∧
    StornoVerlangt l id ∧ ∀ st, x.gesehen = some st → liesWert st.filledQty = some 0 →
      o.filledQty = 0

theorem Gebucht.weiter (h : Gebucht x b l) (hgesehen : x.gesehen = zuletztGesehen l)
    (hw : b.Weiter b') (hD : Storniert l b b') : Gebucht x b' l where
  eigenes hx id o' ho' heigen := by
    obtain ⟨o, ho, hwo⟩ := hw.of_getElem? ho' (fun hz => by rw [Order.eigen, hz] at heigen; cases heigen)
    exact h.eigenes hx id o ho (hwo.eigen ▸ heigen)
  da id hid := by
    obtain ⟨o, ho⟩ := h.da id hid
    obtain ⟨o', ho', -⟩ := hw.getElem? ho
    exact ⟨o', ho'⟩
  gefunden z f id hid := by
    obtain ⟨o, ho⟩ := h.gefunden z f id hid
    obtain ⟨o', ho', -⟩ := hw.getElem? ho
    exact ⟨o', ho'⟩
  storniert hx := by
    obtain ⟨id, o, hid, ho, hverlangt, hnull⟩ := h.storniert hx
    obtain ⟨o', ho', -⟩ := hw.getElem? ho
    exact ⟨id, o', hid, ho', hverlangt, fun st hst hst0 =>
      hD st (hgesehen ▸ hst) hst0 id hverlangt o o' ho ho' (hnull st hst hst0)⟩

theorem Gebucht.gleich (h : Gebucht x b l) (ha : b.antwortet i a b') (heigen : y.eigen = x.eigen)
    (hgroesse : y.groesse = x.groesse) (hgesehen : y.gesehen = x.gesehen)
    (hstorniert : y.storniert = x.storniert)
    (hb : (x.eigen = .nichts ∨ ∃ q, x.groesse = some (q, false)) → b.Fremd b') :
    Gebucht y b' (l ++ [⟨i, a⟩]) where
  eigenes hy id o' ho' ho'eigen := by
    rw [heigen, hgroesse] at hy
    rw [heigen]
    obtain ⟨o, ho, hoeigen⟩ := hb hy id o' ho' ho'eigen
    exact h.eigenes hy id o ho hoeigen
  da id hid := by
    obtain ⟨o, ho⟩ := h.da id (heigen ▸ hid)
    obtain ⟨o', ho', -⟩ := Buch.bleibt ha ho
    exact ⟨o', ho'⟩
  gefunden z f id hid := by
    obtain ⟨o, ho⟩ := h.gefunden z f id (heigen ▸ hid)
    obtain ⟨o', ho', -⟩ := Buch.bleibt ha ho
    exact ⟨o', ho'⟩
  storniert hy := by
    obtain ⟨id, o, hid, ho, ⟨z, a', hz, hmem⟩, hnull⟩ := h.storniert (hstorniert ▸ hy)
    obtain ⟨o', ho', hfilled, -⟩ := Buch.bleibt ha ho
    refine ⟨id, o', heigen.trans hid, ho', ⟨z, a', hz, List.mem_append_left _ hmem⟩, fun st hst => ?_⟩
    rw [hfilled]
    exact hnull st (hgesehen ▸ hst)

/-- Before anything is sent, and before an order is there, none was cancelled. -/
theorem Gebucht.nicht_storniert (h : Gebucht x b l) (hx : ∀ id, x.eigen ≠ .da id) :
    x.storniert = false := by
  cases hst : x.storniert with
  | false => rfl
  | true =>
    obtain ⟨id, _, hid, -⟩ := h.storniert hst
    exact absurd hid (hx id)

/-- Before anything is sent, the broker has no order of the event. -/
theorem Gebucht.keines (h : Gebucht x b l) (hx : x.eigen = .nichts) (id : Nat) (o : Order)
    (ho : b[id]? = some o) : o.eigen = false := by
  cases heigen : o.eigen with
  | false => rfl
  | true =>
    rcases h.eigenes (.inl hx) id o ho heigen with hda | ⟨z, f, hf, -⟩
    · rw [hx] at hda
      cases hda
    · rw [hx] at hf
      cases hf

theorem Gebucht.schritt (h : Gebucht x b l) (hV : Verbucht k x l) (hN : Schritt k x i a y)
    (ha : b.antwortet i a b') (hG : Freigebbar k l b i a b') : Gebucht y b' (l ++ [⟨i, a⟩]) := by
  have hoffen (hx : ∀ id, x.eigen ≠ .da id) {P : Prop} (hst : x.storniert = true) : P := by
    rw [h.nicht_storniert hx] at hst
    cases hst
  have hgleich (hi : i.handelt = false) {y' : Zwischenstand} (heigen : y'.eigen = x.eigen)
      (hgroesse : y'.groesse = x.groesse) (hgesehen : y'.gesehen = x.gesehen)
      (hstorniert : y'.storniert = x.storniert) : Gebucht y' b' (l ++ [⟨i, a⟩]) := by
    refine h.gleich ha heigen hgroesse hgesehen hstorniert fun _ id o ho heigen => ⟨o, ?_, heigen⟩
    rw [← Buch.eq_of_antwortet hi ha]
    exact ho
  -- the limit exit and what follows it is out of question
  have hlimit {q : Rat} (hq : x.groesse = some (q, true)) (hn : x.eigen ≠ .nichts) {P : Prop}
      (hx : x.eigen = .nichts ∨ ∃ q, x.groesse = some (q, false)) : P := by
    obtain hx | ⟨q', hq'⟩ := hx
    · exact absurd hx hn
    · rw [hq] at hq'
      cases hq'
  cases hN with
  | still _ hi => exact hgleich (Frage.handelt_of_still hi) rfl rfl rfl rfl
  | @auftrag _ q istLimit r a heigen =>
      refine ⟨fun _ id o ho hoeigen => ?_, fun id hid => Buch.getElem?_of_nach ha hid,
        fun _ _ _ hid => absurd hid (Eigen.nach_ne_gefunden _ _ _),
        hoffen fun _ hid => by rw [heigen] at hid; cases hid⟩
      have hkeines (ho : b[id]? = some o) : False := by
        rw [h.keines heigen id o ho] at hoeigen
        cases hoeigen
      cases a with
      | ok id' =>
          obtain ⟨hplatz, rfl⟩ := ha
          rcases hplatz.of_getElem? ho with ho | ⟨rfl, -⟩
          · exact (hkeines ho).elim
          · exact .inl rfl
      | error f =>
          refine .inr ⟨_, f, Eigen.versuch_nach_error _ _ _, ?_⟩
          cases habl : istAblehnung (.fremd f) with
          | false => rfl
          | true =>
            obtain rfl : b' = b := hG rfl habl
            exact (hkeines ho).elim
  | @schatten _ q istLimit r a heigen =>
      refine ⟨?_, nofun, nofun, hoffen fun _ hid => by rw [heigen] at hid; cases hid⟩
      rintro (hx | ⟨q', hq'⟩)
      · cases hx
      · rw [(hV.nichts heigen).1] at hq'
        cases hq'
  | @nachAblehnung _ q r s d a hgroesse heigen =>
      refine ⟨?_, fun id hid => Buch.getElem?_of_nach ha hid,
        fun _ _ _ hid => absurd hid (Eigen.nach_ne_gefunden _ _ _),
        hoffen fun _ hid => by rw [heigen] at hid; cases hid⟩
      rintro (hx | hq)
      · exact absurd hx (Eigen.nach_ne_nichts _ _ _)
      · exact hlimit hgroesse (by rw [heigen]; nofun) (.inr hq)
  | @nachgeschlagen _ z f coid symbol a heigen =>
      obtain ⟨rfl, hfund⟩ := ha
      refine ⟨fun hx id o ho hoeigen => ?_, fun id hid => ?_, fun z' f' id hid => ?_,
        hoffen fun _ hid => by rw [heigen] at hid; cases hid⟩
      · have hx' : x.eigen = .nichts ∨ ∃ q, x.groesse = some (q, false) :=
          .inr (hx.resolve_left (Eigen.nachgeschlagen_ne_nichts _ _ _))
        rcases h.eigenes hx' id o ho hoeigen with hda | hversuch
        · rw [heigen] at hda
          cases hda
        · rw [heigen] at hversuch
          rw [Eigen.versuch_nachgeschlagen]
          exact .inr hversuch
      · exact absurd hid (Eigen.nachgeschlagen_ne_da _ _ _)
      · obtain ⟨fd, rfl, rfl⟩ := fund_eq_some (Eigen.gefunden_of_nachgeschlagen hid)
        obtain ⟨o, ho, -⟩ := hfund fd rfl
        exact ⟨o, ho⟩
  | @uebernommen _ z f id heigen hdup =>
      obtain rfl : b' = b.nimm id z := ha
      refine ⟨fun hx j o ho hoeigen => ?_, fun id' hid' => ?_, nofun,
        hoffen fun _ hid => by rw [heigen] at hid; cases hid⟩
      · obtain ⟨o', ho', rfl | ⟨rfl, -⟩⟩ := Buch.of_getElem?_nimm ho
        · rcases h.eigenes (.inr (hx.resolve_left nofun)) j o ho' hoeigen with hda | ⟨z', f', hf', habl⟩
          · rw [heigen] at hda
            cases hda
          · rw [heigen] at hf'
            obtain ⟨-, rfl⟩ := Prod.mk.inj (Option.some.inj hf')
            rw [istAblehnung_of_istDuplikat hdup] at habl
            cases habl
        · exact .inl rfl
      · cases hid'
        obtain ⟨o, ho⟩ := h.gefunden z f id heigen
        exact (Buch.getElem?_nimm ho).elim (fun ho => ⟨_, ho⟩) fun ho => ⟨_, ho⟩
  | @gesehen _ z id a heigen hstorniert =>
      obtain ⟨rfl, -⟩ := ha
      refine ⟨fun hx j o ho => h.eigenes hx j o ho, h.da, h.gefunden, fun hst => ?_⟩
      rw [show x.storniert = true from hst] at hstorniert
      cases hstorniert
  | @storno _ z id a heigen hz =>
      obtain rfl : b' = b := ha
      obtain ⟨o, ho⟩ := h.da id heigen
      refine ⟨h.eigenes, h.da, h.gefunden, fun _ => ⟨id, o, heigen, ho,
        ⟨z, a, hz, List.mem_append_right _ (List.mem_singleton.mpr rfl)⟩, fun st hst hnull => ?_⟩⟩
      exact hG hz st (hV.gesehen ▸ hst) hnull o ho
  | nachFrist a hgroesse heigen =>
      exact h.gleich ha rfl rfl rfl rfl (hlimit hgroesse (by rw [heigen]; nofun))
  | nachFristUebernommen hgroesse =>
      refine h.gleich ha rfl rfl rfl rfl (hlimit hgroesse fun hn => ?_)
      rw [(hV.nichts hn).1] at hgroesse
      cases hgroesse
  | aufgeschoben => exact h.gleich ha rfl rfl rfl rfl fun _ => Buch.fremd_submitOrder rfl ha
  | verdraengung => exact h.gleich ha rfl rfl rfl rfl fun _ => Buch.fremd_submitOrder rfl ha
  | rueckkauf => exact h.gleich ha rfl rfl rfl rfl fun _ => Buch.fremd_submitOrder rfl ha
  | verdraengungUebernommen =>
      exact h.gleich ha rfl rfl rfl rfl fun _ => Buch.fremd_uebernommen rfl ha
  | rueckkaufUebernommen =>
      exact h.gleich ha rfl rfl rfl rfl fun _ => Buch.fremd_uebernommen rfl ha
  | _ => exact hgleich rfl rfl rfl rfl rfl

/-- Where the log and the book agree with a summary, slots were given back as they
should. -/
theorem Gebucht.treu (h : Gebucht x b l) (hV : Verbucht k x l) : Platztreu b l where
  einmal := hV.platz.einmal
  belegt := hV.platz.belegt
  bekannt := hV.platz.bekannt
  ungefuellt anlass hmem o ho hoeigen := by
    have hfertig : x.erstattet = true := by
      cases hx : x.erstattet with
      | true => rfl
      | false => exact absurd hmem (hV.offen hx anlass)
    obtain ⟨hgroesse, hgrund⟩ := hV.fertig hfertig
    obtain ⟨j, hj⟩ := List.mem_iff_getElem?.mp ho
    rcases h.eigenes (.inr hgroesse) j o hj hoeigen with hda | ⟨z, f, hf, habl⟩
    · rcases hgrund with ⟨id, st, hid, hstorniert, hst, hnull⟩ | ⟨z, f, hf, -⟩
      · obtain ⟨id', o', hid', ho', -, hfilled⟩ := h.storniert hstorniert
        obtain rfl := Eigen.da.inj (hda.symm.trans hid')
        rw [hj] at ho'
        obtain rfl := Option.some.inj ho'
        exact hfilled st hst hnull
      · rw [hda] at hf
        cases hf
    · rcases hgrund with ⟨id, st, hid, -⟩ | ⟨z', f', hf', habl'⟩
      · rw [hid] at hf
        cases hf
      · rw [hf'] at hf
        obtain ⟨-, rfl⟩ := Prod.mk.inj (Option.some.inj hf)
        rw [habl'] at habl
        cases habl

end

/-- Where a cancelled order stays as unfilled as it was last seen, a rejected one is not
in the book, and no position exempts the order, a run gives slots back as it should. -/
theorem platz_treu {u : Umfeld} {event : Signal} {pfad : Pfad}
    {c : Conf Buch Frage Frage.Antwort (Except Ende Unit)}
    (h : ((autonomeLaeufe u event pfad).restrict
      (World.within Storniert (Freigebbar (pfad.rahmen u event)))).Reach c) :
    Platztreu c.store c.log := by
  have hV : Verbucht (pfad.rahmen u event) {} [] :=
    ⟨nofun, nofun, rfl, fun _ => ⟨rfl, fun _ _ _ _ hl => absurd hl List.not_mem_nil⟩, nofun,
      fun _ _ hl => absurd hl List.not_mem_nil, nofun,
      .of_nicht fun _ hl => absurd hl List.not_mem_nil⟩
  have h0 (b : Buch) (hb : Unberuehrt b) :
      Verbucht (pfad.rahmen u event) {} [] ∧ Gebucht {} b [] := by
    refine ⟨hV, fun _ id o ho heigen => ?_, nofun, nofun, nofun⟩
    rw [Order.eigen, hb o (List.mem_of_getElem? ho)] at heigen
    cases heigen
  obtain ⟨x, ⟨hV, hB⟩, -⟩ := World.sound_within
    (I := fun x b l => Verbucht (pfad.rahmen u event) x l ∧ Gebucht x b l) h0
    (fun hI hw hD => ⟨hI.1, hI.2.weiter hI.1.gesehen hw hD⟩)
    (fun hI hN ha hG => ⟨hI.1.schritt hN ha hG, hI.2.schritt hI.1 hN ha hG⟩)
    (autonomerLauf_follows u event pfad) h
  exact hB.treu hV

/-! ## Examples -/

/-- A condition on an order of the event when its cancellation is asked for.  A
submission that raises has not reached the book. -/
def BeimStorno (P : Order → Prop) (b : Buch) : (i : Frage) → i.Antwort → Buch → Prop
  | .submitOrder _ _, .error _, b' => b' = b
  | .cancelOrderById _ id, _, _ => ∃ o, b[id]? = some o ∧ P o
  | .bestand _, _, _ => False
  | _, _, _ => True

theorem offen_beimStorno (P : Order → Prop) : Offen (BeimStorno P) := fun _ i _ _ hi => by
  cases i with
  | submitOrder => cases hi
  | cancelOrderById => cases hi
  | bestand => cases hi
  | _ => exact trivial

/-- A tenant buys ten shares, polls the order once as not filled, and cancels it. -/
theorem can_ungefuellt {P : Order → Prop} {T : Buch → Verlauf → Prop}
    {Q : Unit → Buch → Verlauf → Prop} {E : Ende → Buch → Verlauf → Prop} (st : Orderstand)
    (hst : meldetGefuellt (.ok (some st)) = false) (hnull : liesWert st.filledQty = some 0)
    (h : ∀ r, r.qty = 10 → ∀ hr : 0 < r.qty, ∃ o, (Order.neu (.auftrag 10 false) r hr).Weiter o ∧
      st.Zeigt o ∧ P o ∧ ∀ l', ⟨.slotFreigeben .ungefuellt, ()⟩ ∈ l' →
        ∃ o', o.Weiter o' ∧ T [o'] l') :
    welt.Can (BeimStorno P) T
      (autonomerLauf (beispielUmfeld false) (beispielSignal .buy) (.mandant beispielTenant)) Q E [] [] := by
  have hG := offen_beimStorno P
  have hweiter {o o' : Order} (ho : o.Weiter o') : Buch.Weiter [o] [o'] :=
    ⟨[o'], [], rfl, .cons ho .nil, (by simp)⟩
  refine World.can_bind (can_executeTenantOrder hG fun l₁ _ => ?_)
  refine can_vorlauf_buy hG rfl (by norm_num [beispielSignal]) ⟨1000, 1⟩ (by norm_num : (0 : Rat) < 10)
    (by norm_num) trivial fun l₂ _ => ?_
  rw [freigegebeneMenge_ai]
  refine can_abgang hG rfl (by decide) (by norm_num) rfl false rfl
    (by norm_num [abfragen, beispielUmfeld]) (.ok (some st)) fun r hr => ?_
  have hr0 : 0 < r.qty := by rw [hr]; norm_num
  obtain ⟨o, ho, hzeigt, hP, hT⟩ := h r hr hr0
  refine ⟨_, [o], ⟨⟨hr0, rfl⟩, rfl⟩, trivial, hweiter ho, ⟨rfl, ?_⟩, trivial,
    fun req l₃ _ _ hexit => ?_⟩
  · rintro st' hst'
    obtain rfl := Option.some.inj (Except.ok.inj hst')
    exact ⟨o, rfl, hzeigt⟩
  rw [hst, if_neg Bool.false_ne_true]
  refine World.can_bind ?_
  unfold schrittMandantStorno
  refine World.can_bind (can_frage (.ok ()) rfl ⟨o, rfl, hP⟩ fun l₄ _ _ => World.can_bind ?_)
  rw [sendeRest, hexit]
  refine World.can_pure (World.can_bind (World.can_bind (World.can_pure (World.can_pure ?_))))
  have hfrei : (beispielUmfeld false).complianceGuardian = true ∧ Verkauf.Quelle.ai ≠ .humanApproved ∧
      ((nachAbfrage none (.ok (some st))).bind fun live => liesWert live.filledQty) = some 0 :=
    ⟨rfl, (by simp), hnull⟩
  dsimp only
  rw [if_pos hfrei]
  refine can_frage () rfl trivial fun l₅ _ hmem => ?_
  obtain ⟨o', ho', hT'⟩ := hT l₅ hmem
  exact World.can_drift (hweiter ho') (World.can_stop hT')

/-- The slot of a purchase that has ended unfilled. -/
theorem platz_treu_abgelaufen : ∃ c : Conf Buch Frage Frage.Antwort (Except Ende Unit),
    ⟨.slotFreigeben .ungefuellt, ()⟩ ∈ c.log ∧ Platztreu c.store c.log := by
  have hleer : Unberuehrt [] := fun _ ho => absurd ho List.not_mem_nil
  obtain ⟨c, hc, hmem⟩ := World.reach_of_can
    (T := fun _ l => ⟨.slotFreigeben .ungefuellt, ()⟩ ∈ l) hleer
    (can_ungefuellt (P := fun o => o.offen = false ∧ o.filledQty = 0) ⟨.canceled, .zahl 0⟩ rfl rfl
      fun r hr hr0 => by
        refine ⟨(Order.neu (.auftrag 10 false) r hr0).abgelaufen, Order.weiter_abgelaufen _,
          ⟨fun x hx => ?_, nofun, nofun, fun _ => rfl⟩, ⟨rfl, rfl⟩, fun l' hl => ⟨_, .refl _, hl⟩⟩
        cases hx
        rfl)
  -- what is cancelled has ended, and no position is read
  let I (b : Buch) (l : Verlauf) : Prop :=
    (∀ id, StornoVerlangt l id → ∃ o, b[id]? = some o ∧ o.offen = false) ∧
      ∀ symbol a, ⟨.bestand symbol, a⟩ ∉ l
  refine ⟨c, hmem, platz_treu (World.reach_within I (fun _ _ => ⟨?_, ?_⟩) ?_ ?_ hc).1⟩
  · rintro id ⟨z, a, -, hl⟩
    cases hl
  · exact fun _ _ => List.not_mem_nil
  · rintro b l b' ⟨hI, hpos⟩ hw
    refine ⟨⟨fun id hid => ?_, hpos⟩, fun st _ _ id hid o o' ho ho' hnull => ?_⟩
    · obtain ⟨o, ho, hende⟩ := hI id hid
      obtain ⟨o', ho', hwo⟩ := hw.getElem? ho
      exact ⟨o', ho', (hwo.beendet hende).1⟩
    · obtain ⟨o₁, ho₁, hende⟩ := hI id hid
      obtain rfl := Option.some.inj (ho.symm.trans ho₁)
      obtain ⟨o₂, ho₂, hwo⟩ := hw.getElem? ho
      obtain rfl := Option.some.inj (ho'.symm.trans ho₂)
      exact (hwo.beendet hende).2.trans hnull
  · rintro b l i a b' ⟨hI, hpos⟩ ha hG
    refine ⟨⟨fun id hid => ?_, fun symbol a' hmem => ?_⟩, ?_⟩
    · have hende : ∃ o, b[id]? = some o ∧ o.offen = false := by
        obtain ⟨z, a', hz, hmem⟩ := hid
        rcases mem_snoc.mp hmem with hmem | he
        · exact hI id ⟨z, a', hz, hmem⟩
        · cases he
          obtain ⟨o, ho, hende, -⟩ := hG
          exact ⟨o, ho, hende⟩
      obtain ⟨o, ho, hende⟩ := hende
      obtain ⟨o', ho', -, hoffen⟩ := Buch.bleibt ha ho
      exact ⟨o', ho', hoffen.trans hende⟩
    · rcases mem_snoc.mp hmem with hmem | he
      · exact hpos symbol a' hmem
      · cases he
        exact hG
    · cases i with
      | submitOrder z r =>
          cases a with
          | ok id => exact trivial
          | error f => exact fun _ _ => hG
      | cancelOrderById z id =>
          rintro - st - - o ho
          obtain ⟨o', ho', -, hnull⟩ := hG
          obtain rfl := Option.some.inj (ho.symm.trans ho')
          exact hnull
      | slotFreigeben anlass => exact fun symbol a' hmem => absurd hmem (hpos symbol a')
      | _ => exact trivial

def OhneBelegung (_ : Buch) (i : Frage) (_ : i.Antwort) (_ : Buch) : Prop :=
  i ≠ .slotBelegen none

theorem offen_ohneBelegung : Offen OhneBelegung := fun _ i _ _ hi he => by
  rw [he] at hi
  cases hi

section

variable {G : Buch → (i : Frage) → i.Antwort → Buch → Prop} {T : Buch → Verlauf → Prop} {b : Buch}
  {l : Verlauf} {E : Ende → Buch → Verlauf → Prop} {u : Umfeld} {d : Desktop} {event : Signal}
  {st : Uebergabe}

/-- The iron dome lets an exempt exit through, for which no slot is taken. -/
theorem can_schrittCompliance {Q : Bool → Buch → Verlauf → Prop} (hG : Offen G)
    (hseite : event.seite = .sell) (hheld : 0 < st.heldBrokerQty)
    (hexempt : ausgenommen u d event st.qty st.heldBrokerQty = true) (h : ∀ l', Q true b l') :
    welt.Can G T (schrittCompliance u d event st) Q E b l := by
  have hzeuge : heldQty event st.heldBrokerQty = return st.heldBrokerQty := by
    unfold heldQty
    rw [hseite]
    exact if_neg (not_le.mpr hheld)
  have hstaub (qty held equity : Rat) : dustFloorSkipsExit u event qty held equity = false := by
    simp [dustFloorSkipsExit]
  have hfrei : recordTrade u (desktopOrder d event st.qty st.heldBrokerQty) none = return () :=
    if_pos hexempt
  unfold schrittCompliance
  split
  next =>
    rw [hzeuge]
    refine World.can_bind (World.can_pure (World.can_bind (can_dienst hG true fun l₁ _ => ?_)))
    rw [if_pos rfl, hstaub]
    refine World.can_bind (can_dienst hG true fun l₂ _ => ?_)
    rw [if_pos rfl, hfrei]
    exact World.can_bind (World.can_pure (World.can_pure (h l₂)))
  next => exact World.can_pure (h l)

/-- The broker rejects an order of the desktop that displaces nothing. -/
theorem can_desktopAbgang {Q : Unit → Buch → Verlauf → Prop} (hG : Offen G)
    (hschatten : u.shadowMode = false) (hguard : u.complianceGuardian = true)
    (hsymbol : event.symbol ≠ "") (hpos : 0 < st.qty) (hclose : st.pcSymbolToClose = none)
    (hsubmit : ∀ r, G b (.submitOrder (.auftrag st.qty false) r)
      (.error (.apiError (some 422) false)) b)
    (hfrei : G b (.slotFreigeben .abgelehnt) () b)
    (h : ∀ l', ⟨.slotFreigeben .abgelehnt, ()⟩ ∈ l' → T b l') :
    welt.Can G T (desktopAbgang u d event st) Q E b l := by
  have hkauf : schrittDesktopKaufkraft u event st = return st := by
    unfold schrittDesktopKaufkraft
    rw [hclose]
  have hverkauf : schrittDesktopVerdraengungSell u d event st = return st := by
    unfold schrittDesktopVerdraengungSell
    rw [hclose]
  have hzurueck : nimmDesktopVerkaufZurueck u d event st = return () := by
    unfold nimmDesktopVerkaufZurueck
    rw [hclose]
  have hsenden (req : Auftrag) (l' : Verlauf) (hqty : req.qty = st.qty)
      {Q' : Nat → Buch → Verlauf → Prop} :
      welt.Can G T (exceptApiError (do
        let order ← sendeDurchsTor u .broker (.auftrag st.qty false) req
          (event.desktopAbsende d st.qty)
        verkaufeDanach u d event st
        return order)
      fun submitErr => do
        nimmDesktopVerkaufZurueck u d event st
        if u.complianceGuardian = true ∧ istAblehnung submitErr = true then
          frage (.slotFreigeben .abgelehnt)
        throw submitErr) Q' E b l' := by
    refine can_exceptApiError (World.can_bind (can_sendeDurchsTor hG hqty hpos hsymbol
      (.error (.apiError (some 422) false)) (fun f hf => Except.error.inj hf ▸ rfl) fun r _ _ => ?_))
    refine ⟨b, .inl rfl, hsubmit r, fun l₁ _ _ => ⟨_, _, rfl, ?_⟩⟩
    rw [hzurueck]
    refine World.can_bind (World.can_pure ?_)
    rw [if_pos ⟨hguard, rfl⟩]
    refine World.can_bind (can_frage () rfl hfrei fun l₂ _ hmem => World.can_stop (h l₂ hmem))
  have hrest (req : Auftrag) (l' : Verlauf) (hqty : req.qty = st.qty) : welt.Can G T (do
      let st ← schrittDesktopKaufkraft u event st
      let st ← schrittDesktopVerdraengungSell u d event st
      let _ ← schrittAbsenden u d event st req
      schrittNachbuchen d event) Q E b l' := by
    rw [hkauf]
    refine World.can_bind (World.can_pure ?_)
    rw [hverkauf]
    refine World.can_bind (World.can_pure (World.can_bind ?_))
    rw [schrittAbsenden, hschatten]
    rw [if_neg Bool.false_ne_true]
    split
    next => exact World.can_bind (can_checkHalt hG nofun fun l₁ _ => hsenden req l₁ hqty)
    next => exact hsenden req l' hqty
  have hauftrag (coid : String) (l' : Verlauf) : welt.Can G T (if event.isProtectiveExit then
        return marketOrderRequest event.symbol st.qty event.seite (some coid)
      else do
        checkHalt .auftrag
        return marketOrderRequest event.symbol st.qty event.seite (some coid) : Lauf Auftrag)
      (fun req => welt.Can G T (do
        let st ← schrittDesktopKaufkraft u event st
        let st ← schrittDesktopVerdraengungSell u d event st
        let _ ← schrittAbsenden u d event st req
        schrittNachbuchen d event) Q E) E b l' := by
    split
    next => exact World.can_pure (hrest _ l' rfl)
    next =>
      exact World.can_bind (can_checkHalt hG nofun fun l₁ _ => World.can_pure (hrest _ l₁ rfl))
  rw [desktopAbgang, schrittDesktopAuftrag]
  refine World.can_bind (World.can_bind ?_)
  unfold auftragsCoid
  split
  next => exact World.can_pure (hauftrag _ l)
  next => exact can_derivedCoid hG fun coid l₁ _ => hauftrag coid l₁

end

def beispielDesktop : Desktop := ⟨"", 100000, true, false⟩

/-- The desktop sells ten shares that it holds, and the broker rejects the order. -/
theorem can_ausgenommen {Q : Unit → Buch → Verlauf → Prop} {E : Ende → Buch → Verlauf → Prop} :
    welt.Can OhneBelegung (fun _ l => ⟨.slotFreigeben .abgelehnt, ()⟩ ∈ l)
      (autonomerLauf (beispielUmfeld false) (beispielSignal .sell) (.desktop beispielDesktop))
      Q E [] [] := by
  have hG := offen_ohneBelegung
  have hpos : (0 : Rat) < verkaufbareMenge (.ok ⟨10, 100⟩) := by norm_num [verkaufbareMenge]
  have hexempt : ausgenommen (beispielUmfeld false) beispielDesktop (beispielSignal .sell)
      (verkaufbareMenge (.ok ⟨10, 100⟩)) (gehalteneMenge (.ok ⟨10, 100⟩)) = true := by
    norm_num [ausgenommen, beispielUmfeld, Verkauf.isRiskReducingExit, desktopOrder,
      Verkauf.complianceOrder, Signal.toSignalEvent, beispielSignal, Seite.action, Verkauf.qtyEps,
      verkaufbareMenge, gehalteneMenge]
  have hmenge : desktopMenge beispielDesktop (beispielSignal .sell) =
      schrittVerkaufsmenge (beispielSignal .sell) := by
    unfold desktopMenge
    exact if_pos le_rfl
  show welt.Can OhneBelegung _ (processSignalEvent _ _ _) Q E [] []
  refine World.can_tryCatch (World.can_bind (can_dienst hG true fun l₁ _ => ?_))
  rw [if_neg (by decide : ¬beispielDesktop.portfolioManager = true), hmenge, schrittVerkaufsmenge]
  refine World.can_bind (World.can_bind ?_)
  refine can_frage (.ok ⟨10, 100⟩) rfl (by simp [OhneBelegung]) fun l₂ _ _ => ?_
  refine World.can_pure (World.can_bind ?_)
  rw [schrittDesktopEarnings, if_pos hpos]
  refine World.can_bind (can_dienst hG false fun l₃ _ => World.can_pure ?_)
  rw [if_pos hpos, desktopSchritte]
  refine World.can_bind (World.can_pure (World.can_bind (can_dienst hG false fun l₄ _ => ?_)))
  refine World.can_bind (World.can_pure (World.can_bind ?_))
  refine can_schrittCompliance hG rfl (gehalteneMenge_pos hpos) hexempt fun l₅ => ?_
  rw [if_pos rfl]
  exact can_desktopAbgang hG rfl rfl (by decide) hpos rfl (fun _ => by simp [OhneBelegung])
    (by simp [OhneBelegung]) fun _ hmem => hmem

/-- A purchase that fills after its slot was given back, and an exempt exit that has
taken no slot and gives one back. -/
theorem platz_untreu :
    (∃ c, (autonomeLaeufe (beispielUmfeld false) (beispielSignal .buy)
        (.mandant beispielTenant)).Reach c ∧ ⟨.slotFreigeben .ungefuellt, ()⟩ ∈ c.log ∧
        ∃ o ∈ c.store, o.eigen = true ∧ 0 < o.filledQty) ∧
      ∃ c, (autonomeLaeufe (beispielUmfeld false) (beispielSignal .sell)
        (.desktop beispielDesktop)).Reach c ∧ ⟨.slotFreigeben .abgelehnt, ()⟩ ∈ c.log ∧
        ⟨.slotBelegen none, ()⟩ ∉ c.log := by
  have hleer : Unberuehrt [] := fun _ ho => absurd ho List.not_mem_nil
  constructor
  · obtain ⟨c, hc, hT⟩ := World.reach_of_can (T := fun b l => ⟨.slotFreigeben .ungefuellt, ()⟩ ∈ l ∧
        ∃ o ∈ b, o.eigen = true ∧ 0 < o.filledQty) hleer
      (can_ungefuellt (P := fun _ => True) ⟨.andere, .zahl 0⟩ rfl rfl fun r hr hr0 => by
        refine ⟨Order.neu (.auftrag 10 false) r hr0, .refl _, ⟨fun x hx => ?_, nofun, nofun, nofun⟩,
          trivial, fun l' hl => ⟨_, Order.weiter_ausgefuehrt _, hl, _, List.mem_singleton.mpr rfl, rfl,
            hr0⟩⟩
        cases hx
        rfl)
    exact ⟨c, hc.of_restrict, hT⟩
  · obtain ⟨c, hc, hmem⟩ := World.reach_of_can hleer can_ausgenommen
    refine ⟨c, hc.of_restrict, hmem, fun hbelegt => ?_⟩
    exact World.forall_log (P := fun e => e.1 ≠ .slotBelegen none) (fun _ _ _ _ h => h) hc _ hbelegt rfl

end Absendung
