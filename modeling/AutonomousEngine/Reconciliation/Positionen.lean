import AutonomousEngine.Basis.Sums
import AutonomousEngine.Reconciliation.Scharfschaltung

/-!
# Which position breaks a comparison reports

A comparison looks at quantities without their sign.  Two books that hold a
symbol on opposite sides look alike to it.  On the other hand a position the
engine does not know is reported whatever its quantity, and a position without
a symbol is passed over.

`positionsBreaks_iff` reads off what is reported, symbol by symbol, and
`positionen_iff` says where this agrees with the difference of the signed
quantities.
-/

namespace Reconciliation

open ReconciliationService
open Basis (find?_key_iff)

theorem Buch.get_eq_some_iff {b : Buch} {s : String} {k : Rat} :
    b.get s = some k ↔ (s, k) ∈ b.eintraege := by
  unfold Buch.get
  rw [Option.map_eq_some_iff]
  constructor
  · rintro ⟨e, he, rfl⟩
    obtain ⟨hm, rfl⟩ := (find?_key_iff b.eindeutig).mp he
    exact hm
  · exact fun hm => ⟨(s, k), (find?_key_iff b.eindeutig).mpr ⟨hm, rfl⟩, rfl⟩

/-! ## Signed quantities -/

def Position.menge (t : Textlesung) (p : Position) : Rat :=
  (t.float p.qty).getD 0

/-- The signed quantity the broker has of a symbol. -/
def brokerMenge (t : Textlesung) (positions : List Position) (symbol : String) : Rat :=
  ((positions.find? (·.symbol = symbol)).map (·.menge t)).getD 0

/-- The signed quantity a book has of a symbol. -/
def Buch.menge (b : Buch) (symbol : String) : Rat :=
  (b.get symbol).getD 0

/-! ## Reported symbols -/

/-- A break of the positions of a symbol. -/
def ReconciliationBreak.betrifft (b : ReconciliationBreak) (symbol : String) : Prop :=
  (b.kind = .positionMismatch ∨ b.kind = .unknownPosition) ∧ b.symbol = symbol

/-- Some break is about the position of a symbol. -/
def PositionsBruch (breaks : List ReconciliationBreak) (symbol : String) : Prop :=
  ∃ b ∈ breaks, b.betrifft symbol

section

variable (t : Textlesung) (b : Buch)

/-- A position gives a break of its own symbol: always when the book does not
have it, and else when the sizes differ. -/
theorem positionsBreak_iff (p : Position) (symbol : String) :
    (∃ br, positionsBreak t b p = some br ∧ br.betrifft symbol) ↔
      p.symbol = symbol ∧ symbol ≠ "" ∧
        ∀ k, b.get symbol = some k → qtyEpsilon < |(|p.menge t| - |k|)| := by
  unfold positionsBreak
  by_cases hs : p.symbol = ""
  · simp only [if_pos hs]
    constructor
    · rintro ⟨_, h, _⟩
      cases h
    · rintro ⟨rfl, hne, -⟩
      exact absurd hs hne
  · simp only [if_neg hs]
    cases hk : b.get p.symbol with
    | none =>
        constructor
        · rintro ⟨br, h, -, hsym⟩
          cases h
          obtain rfl : p.symbol = symbol := hsym
          exact ⟨rfl, hs, fun k hk' => by simp [hk] at hk'⟩
        · rintro ⟨rfl, -, -⟩
          exact ⟨_, rfl, .inr rfl, rfl⟩
    | some k =>
        by_cases hd : |qty t p.qty - (|k|)| > qtyEpsilon
        · simp only [if_pos hd]
          constructor
          · rintro ⟨br, h, -, hsym⟩
            cases h
            obtain rfl : p.symbol = symbol := hsym
            refine ⟨rfl, hs, fun k' hk' => ?_⟩
            obtain rfl : k = k' := Option.some.inj (hk.symm.trans hk')
            exact hd
          · rintro ⟨rfl, -, -⟩
            exact ⟨_, rfl, .inl rfl, rfl⟩
        · simp only [if_neg hd]
          constructor
          · rintro ⟨_, h, _⟩
            cases h
          · rintro ⟨rfl, -, hall⟩
            exact absurd (hall k hk) hd

/-- An entry of the book gives a break of its own symbol when no position has
it and it is more than the tolerance. -/
theorem verschwunden_iff (positions : List Position) (e : String × Rat) (symbol : String) :
    (∃ br, verschwunden t positions e = some br ∧ br.betrifft symbol) ↔
      e.1 = symbol ∧ symbol ∉ gesehen positions ∧ qtyEpsilon < |e.2| := by
  unfold verschwunden
  by_cases h : e.1 ∉ gesehen positions ∧ |e.2| > qtyEpsilon
  · rw [if_pos h]
    constructor
    · rintro ⟨br, hbr, -, hsym⟩
      cases hbr
      obtain rfl : e.1 = symbol := hsym
      exact ⟨rfl, h⟩
    · rintro ⟨rfl, -⟩
      exact ⟨_, rfl, .inl rfl, rfl⟩
  · rw [if_neg h]
    constructor
    · rintro ⟨_, hbr, _⟩
      cases hbr
    · rintro ⟨rfl, hrest⟩
      exact absurd hrest h

theorem positionsBreaks_iff {positions : List Position} (hu : (positions.map (·.symbol)).Nodup)
    (symbol : String) :
    PositionsBruch (positionsBreaks t b positions) symbol ↔
      (∃ p, positions.find? (·.symbol = symbol) = some p ∧ symbol ≠ "" ∧
        ∀ k, b.get symbol = some k → qtyEpsilon < |(|p.menge t| - |k|)|) ∨
      (symbol ∉ gesehen positions ∧ qtyEpsilon < |b.menge symbol|) := by
  have hsplit : PositionsBruch (positionsBreaks t b positions) symbol ↔
      (∃ p ∈ positions, ∃ br, positionsBreak t b p = some br ∧ br.betrifft symbol) ∨
        ∃ e ∈ b.eintraege, ∃ br, verschwunden t positions e = some br ∧ br.betrifft symbol := by
    simp only [PositionsBruch, positionsBreaks, List.mem_append, List.mem_filterMap, or_and_right,
      exists_or]
    constructor
    · rintro (⟨br, ⟨p, hp, h⟩, hb⟩ | ⟨br, ⟨e, he, h⟩, hb⟩)
      · exact .inl ⟨p, hp, br, h, hb⟩
      · exact .inr ⟨e, he, br, h, hb⟩
    · rintro (⟨p, hp, br, h, hb⟩ | ⟨e, he, br, h, hb⟩)
      · exact .inl ⟨br, ⟨p, hp, h⟩, hb⟩
      · exact .inr ⟨br, ⟨e, he, h⟩, hb⟩
  rw [hsplit]
  refine or_congr ?_ ?_
  · constructor
    · rintro ⟨p, hp, h⟩
      obtain ⟨hs, hrest⟩ := (positionsBreak_iff t b p symbol).mp h
      exact ⟨p, (find?_key_iff hu).mpr ⟨hp, hs⟩, hrest⟩
    · rintro ⟨p, hp, hrest⟩
      obtain ⟨hm, hs⟩ := (find?_key_iff hu).mp hp
      exact ⟨p, hm, (positionsBreak_iff t b p symbol).mpr ⟨hs, hrest⟩⟩
  · constructor
    · rintro ⟨⟨s, k⟩, he, h⟩
      obtain ⟨rfl, hg, hk⟩ := (verschwunden_iff t positions _ symbol).mp h
      refine ⟨hg, ?_⟩
      rwa [Buch.menge, Buch.get_eq_some_iff.mpr he]
    · rintro ⟨hg, hk⟩
      cases hb : b.get symbol with
      | none =>
          rw [Buch.menge, hb] at hk
          norm_num [qtyEpsilon] at hk
      | some k =>
          rw [Buch.menge, hb] at hk
          exact ⟨(symbol, k), Buch.get_eq_some_iff.mp hb,
            (verschwunden_iff t positions _ symbol).mpr ⟨rfl, hg, hk⟩⟩

end

/-! ## Agreement with the signed quantities -/

/-- Where the report of a symbol agrees with the signed quantities: the broker
has no row of it, or the row is unknown to the book and more than the tolerance,
or known to it and different in size if it is different at all.  A row without a
symbol is passed over, and then only the size in the book counts. -/
def Vergleichbar (t : Textlesung) (b : Buch) (positions : List Position) (symbol : String) :
    Prop :=
  match positions.find? (·.symbol = symbol), b.get symbol with
  | none, _ => True
  | some p, none => if symbol = "" then |p.menge t| ≤ qtyEpsilon else qtyEpsilon < |p.menge t|
  | some p, some k =>
      if symbol = "" then (qtyEpsilon < |k| ↔ qtyEpsilon < |p.menge t - k|)
      else |p.menge t - k| ≤ qtyEpsilon ∨ qtyEpsilon < |(|p.menge t| - |k|)|

/-- The report of a symbol agrees with the signed quantities exactly where they
are comparable. -/
theorem positionsBreaks_iff_vergleichbar (t : Textlesung) (b : Buch) {positions : List Position}
    (hu : (positions.map (·.symbol)).Nodup) (symbol : String) :
    (PositionsBruch (positionsBreaks t b positions) symbol ↔
        qtyEpsilon < |brokerMenge t positions symbol - b.menge symbol|) ↔
      Vergleichbar t b positions symbol := by
  rw [positionsBreaks_iff t b hu]
  have hseen : symbol ∈ gesehen positions ↔
      positions.find? (·.symbol = symbol) ≠ none ∧ symbol ≠ "" := by
    simp [gesehen]
  unfold brokerMenge Vergleichbar Buch.menge
  cases hp : positions.find? (·.symbol = symbol) with
  | none =>
      have hnot : symbol ∉ gesehen positions := fun h => (hseen.mp h).1 hp
      simp [hnot]
  | some p =>
      have heps : ¬(qtyEpsilon < 0) := by norm_num [qtyEpsilon]
      by_cases hs : symbol = ""
      · have hnot : symbol ∉ gesehen positions := fun h => (hseen.mp h).2 hs
        cases hb : b.get symbol with
        | none => simp [hs, hs ▸ hnot, heps]
        | some k => simp [hs, hs ▸ hnot]
      · have hin : symbol ∈ gesehen positions := hseen.mpr ⟨by simp [hp], hs⟩
        cases hb : b.get symbol with
        | none => simp [hs, hin]
        | some k =>
            have hle : |(|p.menge t| - |k|)| ≤ |p.menge t - k| := abs_abs_sub_abs_le _ _
            have hrep : ((∃ p', some p = some p' ∧ symbol ≠ "" ∧
                ∀ k', some k = some k' → qtyEpsilon < |(|p'.menge t| - |k'|)|) ∨
                  (symbol ∉ gesehen positions ∧ qtyEpsilon < |(some k).getD 0|)) ↔
                qtyEpsilon < |(|p.menge t| - |k|)| := by
              simp [hs, hin]
            rw [hrep]
            simp only [Option.map_some, Option.getD_some, if_neg hs]
            constructor
            · intro h
              by_cases hd : |p.menge t - k| ≤ qtyEpsilon
              · exact .inl hd
              · exact .inr (h.mpr (lt_of_not_ge hd))
            · rintro (h | h)
              · exact ⟨fun h' => h'.trans_le hle, fun h' => absurd h (not_le.mpr h')⟩
              · exact ⟨fun h' => h'.trans_le hle, fun _ => h⟩

/-! ## A whole comparison -/

theorem positionsBruch_append {bs bs' : List ReconciliationBreak} {symbol : String} :
    PositionsBruch (bs ++ bs') symbol ↔ PositionsBruch bs symbol ∨ PositionsBruch bs' symbol := by
  simp [PositionsBruch, or_and_right, exists_or]

theorem not_positionsBruch {bs : List ReconciliationBreak} {kind : BreakKind}
    (h : ∀ b ∈ bs, b.kind = kind) (hm : kind ≠ .positionMismatch) (hu : kind ≠ .unknownPosition)
    (symbol : String) : ¬PositionsBruch bs symbol := by
  rintro ⟨b, hb, hk | hk, -⟩
  · exact hm ((h b hb).symm.trans hk)
  · exact hu ((h b hb).symm.trans hk)

theorem trageNach_kind (t : Textlesung) (jetzt : String) {d : ReconciliationService}
    {os : List BrokerOrder} {bs : List ReconciliationBreak}
    (h : (d.trageNach t jetzt os).1 = some bs) : ∀ b ∈ bs, b.kind = .missingFill := by
  induction os generalizing d bs with
  | nil =>
      obtain rfl : [] = bs := Option.some.inj h
      intro b hb
      cases hb
  | cons o os ih =>
      unfold trageNach at h
      split at h
      next => exact ih h
      next =>
        split at h
        next => exact ih h
        next => cases h
        next e d' _ =>
          obtain ⟨bs', hbs', rfl⟩ := Option.map_eq_some_iff.mp h
          intro b hb
          rcases List.mem_cons.mp hb with rfl | hb
          · rfl
          · exact ih hbs' b hb

theorem positionsBruch_compare (t : Textlesung) (jetzt : String) {d d' : ReconciliationService}
    {w : BrokerState} {breaks : List ReconciliationBreak} (hd : d.adopted = true)
    (hc : d.compare t jetzt w = (some breaks, d')) (symbol : String) :
    PositionsBruch breaks symbol ↔
      PositionsBruch (positionsBreaks t d.knownPositions w.positions) symbol := by
  have hknown : (d.trageNach t jetzt w.fillOrders).2.knownPositions = d.knownPositions :=
    (trageNach_nurFills t jetzt d w.fillOrders).knownPositions
  simp only [ReconciliationService.compare, hd, Bool.not_true, Bool.false_eq_true, if_false, Prod.mk.injEq,
    Option.map_eq_some_iff] at hc
  obtain ⟨⟨fehlend, hf, rfl⟩, -⟩ := hc
  have herr : ∀ b ∈ w.errors.map nichtAbrufbar, b.kind = .brokerUnreachable := by
    intro b hb
    obtain ⟨e, -, rfl⟩ := List.mem_map.mp hb
    rfl
  have horph : ∀ b ∈ w.orders.filterMap (d.trageNach t jetzt w.fillOrders).2.verwaist,
      b.kind = .orphanedOrder := by
    intro b hb
    obtain ⟨o, -, ho⟩ := List.mem_filterMap.mp hb
    unfold verwaist at ho
    split at ho
    next => cases ho; rfl
    next => cases ho
  rw [hknown, positionsBruch_append, positionsBruch_append, positionsBruch_append]
  simp [not_positionsBruch herr, not_positionsBruch horph,
    not_positionsBruch (trageNach_kind t jetzt hf)]

/-- A comparison reports a position break of a symbol exactly when the signed
quantities differ by more than the tolerance, if and only if the two sides are
comparable there. -/
theorem positionen_iff (t : Textlesung) (jetzt : String) {d d' : ReconciliationService}
    {w : BrokerState} {breaks : List ReconciliationBreak} (hd : d.adopted = true)
    (hu : (w.positions.map (·.symbol)).Nodup)
    (hc : d.compare t jetzt w = (some breaks, d')) (symbol : String) :
    (PositionsBruch breaks symbol ↔
        qtyEpsilon < |brokerMenge t w.positions symbol - d.knownPositions.menge symbol|) ↔
      Vergleichbar t d.knownPositions w.positions symbol := by
  rw [positionsBruch_compare t jetzt hd hc]
  exact positionsBreaks_iff_vergleichbar t d.knownPositions hu symbol

def wenigeZahlen : Textlesung where
  float s := if s = "10" then some 10 else if s = "-10" then some (-10) else none
  repr _ := ""
  isdigit _ := false

/-- A service that has adopted ten shares of one symbol. -/
def mitZehn (menge : Rat) : ReconciliationService :=
  { neu true ⟨[("AAPL", menge)], by simp⟩ with adopted := true, reconciledOnce := true }

/-- What the broker reports of that symbol. -/
def meldet (qty : String) : BrokerState :=
  ⟨[], [], [⟨"AAPL", qty⟩], []⟩

/-- Equal long positions are comparable, and give no break. -/
theorem positionen_iff_gleich :
    PositionsBruch ([] : List ReconciliationBreak) "AAPL" ↔
      qtyEpsilon < |brokerMenge wenigeZahlen (meldet "10").positions "AAPL" -
        (mitZehn 10).knownPositions.menge "AAPL"| := by
  have hrun : (mitZehn 10).compare wenigeZahlen "" (meldet "10") = (some [], mitZehn 10) := by
    simp [ReconciliationService.compare, mitZehn, meldet, BrokerState.fillOrders, trageNach,
      positionsBreaks, positionsBreak, Buch.get, qty, wenigeZahlen, verschwunden, gesehen, neu,
      qtyEpsilon]
  refine (positionen_iff wenigeZahlen "" rfl (by simp [meldet]) hrun "AAPL").mpr ?_
  simp [Vergleichbar, meldet, mitZehn, Buch.get, Position.menge, wenigeZahlen, qtyEpsilon, neu]

/-- The broker is ten shares short where the book is ten shares long, and the
comparison finds nothing. -/
theorem positionen_gegenlaeufig :
    (mitZehn 10).compare wenigeZahlen "" (meldet "-10") = (some [], mitZehn 10) ∧
      ¬(PositionsBruch [] "AAPL" ↔
        qtyEpsilon < |brokerMenge wenigeZahlen (meldet "-10").positions "AAPL" -
          (mitZehn 10).knownPositions.menge "AAPL"|) := by
  constructor
  · simp [ReconciliationService.compare, mitZehn, meldet, BrokerState.fillOrders, trageNach,
      positionsBreaks, positionsBreak, Buch.get, qty, wenigeZahlen, verschwunden, gesehen, neu,
      qtyEpsilon]
  · simp [PositionsBruch, brokerMenge, meldet, Position.menge, wenigeZahlen, Buch.menge, Buch.get,
      mitZehn, neu, qtyEpsilon]
    norm_num

end Reconciliation
