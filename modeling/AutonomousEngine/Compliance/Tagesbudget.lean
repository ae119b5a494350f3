import AutonomousEngine.Basis.Interleave
import AutonomousEngine.Verkauf.Schranken
import Mathlib.Data.List.Count

/-!
# The daily trade budget

The guardian counts the trades of the day in memory, under a lock, and books each
of them in a store under the key of the New York date.  A refund takes one back
in both places.  The counter of a new process, and the one after
`reset_daily_limit`, is what the store holds for the date.

The two places are written one after the other, and the key is built from the
clock when the booking is made.  So a refund after midnight lowers the budget of
the new day, and a reset that has read the store may still assign what it read
when more has been booked.  When neither happens the counter never falls behind
the trades of its date (`budget_treu`).

Every booking stands in a list, the trade's number being its place
(`Budget.buchungen`).  No step reads that list.  The store is available, and its
entries outlive their date.
-/

namespace Compliance.Tagesbudget

open Basis

/-- A booked trade: the date it is booked on, and the dates its refunds have
lowered. -/
structure Buchung where
  datum : String
  erstattet : List String
deriving DecidableEq, Repr

/-- The counter, the store, the date, and what was booked so far. -/
structure Budget where
  dailyTrades : Nat
  ablage : String → Option Int
  heute : String
  buchungen : List Buchung

/-! ## The store -/

def budgetPraefix : String := "compliance:daily_trades:"

/-- `_budget_schluessel`, at a date. -/
def budgetSchluessel (datum : String) : String := budgetPraefix ++ datum

theorem budgetSchluessel_inj {d d' : String} : budgetSchluessel d = budgetSchluessel d' ↔ d = d' := by
  simp [budgetSchluessel]

namespace Budget

variable (b : Budget)

def stand (datum : String) : Int := (b.ablage (budgetSchluessel datum)).getD 0

/-- `_budget_von_heute`, at a date: never below zero. -/
def budgetVon (datum : String) : Nat := (b.stand datum).toNat

def incrbyfloat (datum : String) (betrag : Int) : Budget :=
  { b with ablage := Function.update b.ablage (budgetSchluessel datum) (some (b.stand datum + betrag)) }

theorem stand_incrbyfloat (datum d : String) (betrag : Int) :
    (b.incrbyfloat datum betrag).stand d = b.stand d + if d = datum then betrag else 0 := by
  by_cases h : d = datum
  · subst h
    simp [stand, incrbyfloat]
  · have hkey : budgetSchluessel d ≠ budgetSchluessel datum := fun hk =>
      h (budgetSchluessel_inj.mp hk)
    simp [stand, incrbyfloat, h, Function.update_of_ne hkey]

/-- The trades recorded on a date that were not refunded. -/
def offen (datum : String) : Nat :=
  b.buchungen.countP fun e => e.datum == datum && e.erstattet.isEmpty

def datumVon (trade : Nat) : Option String := b.buchungen[trade]?.map Buchung.datum

end Budget

/-! ## The calls -/

/-- What is called. -/
inductive Aufruf where
  | recordTrade (order : Option Verkauf.ComplianceOrder)
  /-- The refund of a trade that was booked. -/
  | refundTrade (trade : Nat)
  | resetDailyLimit
deriving DecidableEq, Repr

/-- What `_budget_buchen` books. -/
inductive Betrag where
  | handel
  | rueckgabe (trade : Nat)
deriving DecidableEq, Repr

/-- What a call does next. -/
inductive Punkt where
  | pruefen (order : Option Verkauf.ComplianceOrder)
  /-- The lock of `record_trade`. -/
  | zaehlen
  /-- The lock of `refund_trade`. -/
  | mindern (trade : Nat)
  | schluessel (betrag : Betrag)
  | buchen (betrag : Betrag) (datum : String)
  | resetSchluessel
  | resetLesen (datum : String)
  | resetSetzen (wert : Nat)
deriving DecidableEq, Repr

/-- An exit that is exempt from the budget. -/
def freigestellt (allowRiskReducingExits : Bool) (order : Option Verkauf.ComplianceOrder) : Bool :=
  order.any fun o => allowRiskReducingExits && Verkauf.isRiskReducingExit o

def Budget.bucht (b : Budget) (datum : String) : Betrag → Budget
  | .handel => { b.incrbyfloat datum 1 with buchungen := b.buchungen ++ [⟨datum, []⟩] }
  | .rueckgabe trade =>
      { b.incrbyfloat datum (-1) with
        buchungen := b.buchungen.modify trade fun e => { e with erstattet := e.erstattet ++ [datum] } }

/-- One contact of a call with the guardian, the clock or the store. -/
inductive Zugriff (allow : Bool) : Budget → Punkt → Budget → Punkt ⊕ Unit → Prop where
  | frei {b order} : freigestellt allow order = true → Zugriff allow b (.pruefen order) b (.inr ())
  | pruefen {b order} : freigestellt allow order = false →
      Zugriff allow b (.pruefen order) b (.inl .zaehlen)
  | zaehlen {b} :
      Zugriff allow b .zaehlen { b with dailyTrades := b.dailyTrades + 1 } (.inl (.schluessel .handel))
  | mindern {b trade} : 0 < b.dailyTrades →
      Zugriff allow b (.mindern trade) { b with dailyTrades := b.dailyTrades - 1 }
        (.inl (.schluessel (.rueckgabe trade)))
  | nichtsZuMindern {b trade} : b.dailyTrades = 0 → Zugriff allow b (.mindern trade) b (.inr ())
  | schluessel {b betrag} : Zugriff allow b (.schluessel betrag) b (.inl (.buchen betrag b.heute))
  | buchen {b betrag datum} :
      Zugriff allow b (.buchen betrag datum) (b.bucht datum betrag) (.inr ())
  | resetSchluessel {b} : Zugriff allow b .resetSchluessel b (.inl (.resetLesen b.heute))
  | resetLesen {b datum} :
      Zugriff allow b (.resetLesen datum) b (.inl (.resetSetzen (b.budgetVon datum)))
  | resetSetzen {b wert} :
      Zugriff allow b (.resetSetzen wert) { b with dailyTrades := wert } (.inr ())

/-- Another date, or a new process with the counter of the store. -/
inductive VonSelbst (b : Budget) : Budget → Prop where
  | tageswechsel (datum : String) : VonSelbst b { b with heute := datum }
  | neustart : VonSelbst b { b with dailyTrades := b.budgetVon b.heute }

def Aufruf.punkt : Aufruf → Punkt
  | .recordTrade order => .pruefen order
  | .refundTrade trade => .mindern trade
  | .resetDailyLimit => .resetSchluessel

def guardian (allow : Bool) : Machine Budget Aufruf Punkt Unit where
  entry := Aufruf.punkt
  access := Zugriff allow
  idle := VonSelbst

def Leer (b : Budget) : Prop := b.dailyTrades = 0 ∧ b.ablage = (fun _ => none) ∧ b.buchungen = []

abbrev Stand : Type := Pool Budget Aufruf Punkt Unit

/-- A new process takes over no running call. -/
def NeustartAllein (p : Stand) (a : PoolAct Aufruf) (b' : Budget) : Prop :=
  a = .idle → b'.dailyTrades ≠ p.store.dailyTrades → ∀ i, p.jobs i = none

/-- All interleavings of all calls, with crashes, new processes and changes of the
date. -/
def system (allow : Bool) : System Stand (PoolAct Aufruf) :=
  ((guardian allow).pool Leer).restrict (guarded NeustartAllein)

/-! ## The promise -/

/-- A reset that ends leaves the counter at no less than the trades of the date
that were not refunded. -/
def ResetTreu (p p' : Stand) : Prop :=
  ∀ d, p'.log = p.log ++ [d] → d.call = .resetDailyLimit →
    p'.store.offen p'.store.heute ≤ p'.store.dailyTrades

/-- A refund lowers only the date its trade was recorded on. -/
def RueckgabeTreu (b : Budget) : Prop :=
  ∀ e ∈ b.buchungen, ∀ datum ∈ e.erstattet, datum = e.datum

/-- A call has taken the key of a reset and not assigned yet. -/
def Punkt.istReset : Punkt → Bool
  | .resetLesen _ | .resetSetzen _ => true
  | _ => false

/-- A refund takes its key on the date of its trade and is the only one of it.  No trade is
booked between the reading and the assignment of a reset, and the date does not
change between its key and the assignment. -/
structure Rechtzeitig (p : Stand) (a : PoolAct Aufruf) (b' : Budget) : Prop where
  tag : ∀ i c n trade, a = .access i → p.jobs i = some ⟨c, n, .schluessel (.rueckgabe trade)⟩ →
    p.store.datumVon trade = some p.store.heute
  einmal : ∀ i c n trade datum, a = .access i →
    p.jobs i = some ⟨c, n, .buchen (.rueckgabe trade) datum⟩ →
      ∀ e, p.store.buchungen[trade]? = some e → e.erstattet = []
  ungestoert : ∀ i c n datum, a = .access i → p.jobs i = some ⟨c, n, .buchen .handel datum⟩ →
    ∀ i' j wert, p.jobs i' = some j → j.point ≠ .resetSetzen wert
  datum : a = .idle → b'.heute ≠ p.store.heute →
    ∀ i j, p.jobs i = some j → j.point.istReset = false

/-! ## What every state keeps -/

/-- The store holds the trades of each date that were not refunded, and no refund
has lowered another date. -/
structure Treu (b : Budget) : Prop where
  stand : ∀ datum, b.stand datum = b.offen datum
  rueckgabe : RueckgabeTreu b

/-- A refund that has its key has the date of its trade, a reset has the key of the
date, and what it has read is no less than the store holds. -/
def Punkt.Gilt (b : Budget) : Punkt → Prop
  | .buchen (.rueckgabe trade) datum => b.datumVon trade = some datum
  | .resetLesen datum => datum = b.heute
  | .resetSetzen wert => b.stand b.heute ≤ wert
  | _ => True

def Punkt.imReset : Punkt → Bool
  | .resetSchluessel | .resetLesen _ | .resetSetzen _ => true
  | _ => false

/-- What holds of a running call. -/
structure Laeuft (b : Budget) (j : Job Aufruf Punkt) : Prop where
  gilt : j.point.Gilt b
  reset : j.call = .resetDailyLimit → j.point.imReset = true

/-- Changing one element changes a count by that element. -/
theorem countP_modify {α : Type} {p : α → Bool} {f : α → α} {l : List α} {i : Nat} {e : α}
    (he : l[i]? = some e) : (l.modify i f).countP p + (if p e then 1 else 0) =
      l.countP p + if p (f e) then 1 else 0 := by
  induction l generalizing i with
  | nil => simp at he
  | cons x l ih =>
      cases i with
      | zero =>
          obtain rfl : x = e := by simpa using he
          rw [List.modify_zero_cons, List.countP_cons, List.countP_cons]
          omega
      | succ i =>
          have hrest := ih (by simpa using he : l[i]? = some e)
          rw [List.modify_succ_cons, List.countP_cons, List.countP_cons]
          omega

section Schritt

variable {allow : Bool} {b b' : Budget} {q : Punkt} {r : Punkt ⊕ Unit}

@[simp] theorem stand_bucht (datum d : String) (betrag : Betrag) :
    (b.bucht datum betrag).stand d =
      b.stand d + if d = datum then (match betrag with | .handel => 1 | .rueckgabe _ => -1) else 0 := by
  cases betrag <;> exact Budget.stand_incrbyfloat b datum d _

theorem offen_handel (datum d : String) :
    (b.bucht datum .handel).offen d = b.offen d + if d = datum then 1 else 0 := by
  by_cases h : d = datum
  · subst h
    simp [Budget.offen, Budget.bucht]
  · simp [Budget.offen, Budget.bucht, h, Ne.symm h]

/-- What the first refund of a trade takes away. -/
theorem offen_rueckgabe {trade : Nat} {e : Buchung} (he : b.buchungen[trade]? = some e)
    (hleer : e.erstattet = []) (d : String) :
    (b.bucht e.datum (.rueckgabe trade)).offen d + (if d = e.datum then 1 else 0) = b.offen d := by
  have hcount := countP_modify (p := fun e : Buchung => e.datum == d && e.erstattet.isEmpty)
    (f := fun e' => { e' with erstattet := e'.erstattet ++ [e.datum] }) he
  by_cases h : d = e.datum
  · subst h
    simpa [Budget.offen, Budget.bucht, hleer] using hcount
  · simpa [Budget.offen, Budget.bucht, hleer, h, Ne.symm h] using hcount

theorem datumVon_bucht {trade : Nat} {d datum : String} (betrag : Betrag)
    (h : b.datumVon trade = some d) : (b.bucht datum betrag).datumVon trade = some d := by
  obtain ⟨e, he, rfl⟩ := Option.map_eq_some_iff.mp h
  cases betrag with
  | handel =>
      have hlt : trade < b.buchungen.length := (List.getElem?_eq_some_iff.mp he).1
      simp [Budget.datumVon, Budget.bucht, List.getElem?_append_left hlt, he]
  | rueckgabe trade' =>
      simp only [Budget.datumVon, Budget.bucht, List.getElem?_modify, he]
      by_cases htrade : trade' = trade <;> simp [htrade]

theorem Treu.handel (h : Treu b) (datum : String) : Treu (b.bucht datum .handel) := by
  refine ⟨fun d => ?_, fun e he d hd => ?_⟩
  · rw [stand_bucht, offen_handel, h.stand d]
    by_cases hdatum : d = datum <;> simp [hdatum]
  · rcases List.mem_append.mp he with he | he
    · exact h.rueckgabe e he d hd
    · obtain rfl := List.mem_singleton.mp he
      simp at hd

/-- The first refund of a trade on its date leaves both together. -/
theorem Treu.rueckgabe_bucht (h : Treu b) {trade : Nat} {e : Buchung}
    (he : b.buchungen[trade]? = some e) (hleer : e.erstattet = []) :
    Treu (b.bucht e.datum (.rueckgabe trade)) := by
  refine ⟨fun d => ?_, fun e' he' d hd => ?_⟩
  · have hoffen := offen_rueckgabe he hleer d
    rw [stand_bucht, h.stand d]
    by_cases hdatum : d = e.datum
    · simp only [hdatum, if_true] at hoffen ⊢
      omega
    · simp only [hdatum, if_false] at hoffen ⊢
      omega
  · obtain ⟨n, hn⟩ := List.mem_iff_getElem?.mp he'
    simp only [Budget.bucht, List.getElem?_modify] at hn
    by_cases htrade : trade = n
    · subst htrade
      obtain rfl : { e with erstattet := e.erstattet ++ [e.datum] } = e' := by simpa [he] using hn
      simpa [hleer] using hd
    · simp only [htrade, if_false, id_map'] at hn
      exact h.rueckgabe e' (List.mem_of_getElem? hn) d hd

/-- A contact books, or it leaves the store and the list alone. -/
theorem Zugriff.wirkung (h : Zugriff allow b q b' r) :
    (∃ betrag datum, q = .buchen betrag datum ∧ b' = b.bucht datum betrag) ∨
      b'.ablage = b.ablage ∧ b'.buchungen = b.buchungen ∧ b'.heute = b.heute := by
  cases h with
  | @buchen betrag datum => exact .inl ⟨betrag, datum, rfl, rfl⟩
  | _ => exact .inr ⟨rfl, rfl, rfl⟩

theorem Treu.congr (h : Treu b) (ha : b'.ablage = b.ablage) (hl : b'.buchungen = b.buchungen) :
    Treu b' := by
  refine ⟨fun datum => ?_, fun e he => h.rueckgabe e (hl ▸ he)⟩
  have hstand : b'.stand datum = b.stand datum := by simp [Budget.stand, ha]
  have hoffen : b'.offen datum = b.offen datum := by simp [Budget.offen, hl]
  rw [hstand, hoffen, h.stand datum]

/-- A booking other than one of a trade adds nothing to the store. -/
theorem stand_le_bucht {trade : Nat} (datum d : String) :
    (b.bucht datum (.rueckgabe trade)).stand d ≤ b.stand d := by
  rw [stand_bucht]
  dsimp only
  split <;> omega

/-- What holds of a call goes on to hold, when no trade is booked behind a reset that has
read. -/
theorem Punkt.Gilt.bleibt {q' : Punkt} (hg : q'.Gilt b) (h : Zugriff allow b q b' r)
    (hstill : ∀ datum, q = .buchen .handel datum → ∀ wert, q' ≠ .resetSetzen wert) :
    q'.Gilt b' := by
  cases q' with
  | buchen betrag datum =>
      cases betrag with
      | handel => trivial
      | rueckgabe trade =>
          rcases h.wirkung with ⟨betrag, datum', -, rfl⟩ | ⟨-, hl, -⟩
          · exact datumVon_bucht betrag hg
          · show b'.datumVon trade = some datum
            rw [Budget.datumVon, hl]
            exact hg
  | resetLesen datum =>
      show datum = b'.heute
      rcases h.wirkung with ⟨betrag, datum', -, rfl⟩ | ⟨-, -, hh⟩
      · cases betrag <;> exact hg
      · rw [hh]
        exact hg
  | resetSetzen wert =>
      show b'.stand b'.heute ≤ wert
      rcases h.wirkung with ⟨betrag, datum, hq, rfl⟩ | ⟨ha, -, hh⟩
      · cases betrag with
        | handel => exact absurd rfl (hstill datum hq wert)
        | rueckgabe trade => exact le_trans (stand_le_bucht datum b.heute) hg
      · rw [Budget.stand, ha, hh]
        exact hg
  | _ => trivial

theorem Laeuft.bleibt {j : Job Aufruf Punkt} (hj : Laeuft b j) (h : Zugriff allow b q b' r)
    (hstill : ∀ datum, q = .buchen .handel datum → ∀ wert, j.point ≠ .resetSetzen wert) :
    Laeuft b' j :=
  ⟨hj.gilt.bleibt h hstill, hj.reset⟩

/-- A date that stays, or a reset that has no key yet, leaves what holds of a call. -/
theorem Laeuft.vonSelbst {j : Job Aufruf Punkt} (hj : Laeuft b j) (h : VonSelbst b b')
    (hdatum : b'.heute ≠ b.heute → j.point.istReset = false) : Laeuft b' j := by
  refine ⟨?_, hj.reset⟩
  have hg := hj.gilt
  cases h with
  | tageswechsel datum =>
      by_cases heute : datum = b.heute
      · subst heute
        exact hg
      · have hr := hdatum heute
        cases hq : j.point with
        | resetLesen d =>
            rw [hq] at hr
            cases hr
        | resetSetzen wert =>
            rw [hq] at hr
            cases hr
        | buchen betrag d =>
            rw [hq] at hg
            cases betrag with
            | handel => trivial
            | rueckgabe trade => exact hg
        | _ => trivial
  | neustart => cases hq : j.point <;> rw [hq] at hg <;> exact hg

/-- A contact of a reset leads to a point of a reset, and the last one assigns. -/
theorem Zugriff.imReset (h : Zugriff allow b q b' r) (hq : q.imReset = true) :
    (∃ q', r = .inl q' ∧ q'.imReset = true) ∨
      ∃ wert, q = .resetSetzen wert ∧ b' = { b with dailyTrades := wert } := by
  cases h with
  | resetSchluessel => exact .inl ⟨_, rfl, rfl⟩
  | resetLesen => exact .inl ⟨_, rfl, rfl⟩
  | @resetSetzen wert => exact .inr ⟨wert, rfl, rfl⟩
  | _ => cases hq

end Schritt

/-! ## All runs -/

/-- Under the condition every contact keeps the invariant and the others'
assertions. -/
theorem guardian_outline (allow : Bool) :
    Outline (guardian allow) Rechtzeitig (fun b _ => Treu b) fun b _ j => Laeuft b j where
  enter c _ := by cases c <;> exact ⟨trivial, by simp [guardian, Aufruf.punkt, Punkt.imReset]⟩
  access := by
    intro p i c n q b' q' hG hI hg hi ha
    refine ⟨?_, ⟨?_, fun hcall => ?_⟩, fun i' j _ hi' hj => hj.bleibt ha ?_⟩
    · rcases Zugriff.wirkung ha with ⟨betrag, datum, rfl, -⟩ | ⟨habl, hl, -⟩
      · cases ha
      · exact hI.congr habl hl
    · cases ha with
      | @schluessel betrag =>
          cases betrag with
          | handel => trivial
          | rueckgabe trade => exact hG.tag i c n trade rfl hi
      | resetSchluessel => exact rfl
      | @resetLesen datum =>
          -- what is read is the store of the date, and never below it
          obtain rfl : datum = p.store.heute := hg.gilt
          exact Int.self_le_toNat _
      | _ => trivial
    · rcases Zugriff.imReset ha (hg.reset hcall) with ⟨q'', hq, hr⟩ | ⟨wert, rfl, -⟩
      · obtain rfl := Sum.inl.inj hq
        exact hr
      · cases ha
    · rintro datum rfl
      cases ha
  answer := by
    intro p i c n q b' u hG hI hg hi ha
    refine ⟨?_, fun i' j _ hi' hj => hj.bleibt ha ?_⟩
    · rcases Zugriff.wirkung ha with ⟨betrag, datum, rfl, rfl⟩ | ⟨habl, hl, -⟩
      · cases betrag with
        | handel => exact hI.handel datum
        | rueckgabe trade =>
            obtain ⟨e, he, rfl⟩ := Option.map_eq_some_iff.mp hg.gilt
            exact hI.rueckgabe_bucht he (hG.einmal i c n trade _ rfl hi e he)
      · exact hI.congr habl hl
    · rintro datum rfl wert
      exact hG.ungestoert i c n datum rfl hi i' j wert hi'
  idle := by
    intro p b' hG hI hi
    refine ⟨?_, fun i j hj hl => hl.vonSelbst hi fun hne => hG.datum rfl hne i j hj⟩
    cases hi with
    | tageswechsel datum => exact hI.congr rfl rfl
    | neustart => exact hI.congr rfl rfl

/-- In every state of a run under the condition the store holds the trades that were not
refunded, and the assertions of the running calls hold. -/
theorem treu_of_reach {allow : Bool} {p : Stand}
    (h : ((system allow).restrict (guarded Rechtzeitig)).Reach p) :
    Treu p.store ∧ ∀ i j, p.jobs i = some j → Laeuft p.store j := by
  have hpool : (((guardian allow).pool Leer).restrict (guarded Rechtzeitig)).Reach p := by
    induction h with
    | start h => exact .start h
    | step _ hs ih => exact .step ih ⟨hs.1.1, hs.2⟩
  refine ((guardian allow).outline_sound (guardian_outline allow) (fun b hb => ?_) hpool)
  obtain ⟨-, ha, hl⟩ := hb
  exact ⟨fun datum => by simp [Budget.stand, Budget.offen, ha, hl], by simp [RueckgabeTreu, hl]⟩

section Beispiel

variable {allow : Bool} {b : Budget}

def nachRecord (b : Budget) : Budget := { b with dailyTrades := b.dailyTrades + 1 }.bucht b.heute .handel

def nachRefund (trade : Nat) (b : Budget) : Budget :=
  { b with dailyTrades := b.dailyTrades - 1 }.bucht b.heute (.rueckgabe trade)

/-- The points at which the condition asks for something. -/
def NachRegel (b : Budget) (q : Punkt) : Prop :=
  (∀ trade, q = .schluessel (.rueckgabe trade) → b.datumVon trade = some b.heute) ∧
    ∀ trade datum, q = .buchen (.rueckgabe trade) datum →
      ∀ e, b.buchungen[trade]? = some e → e.erstattet = []

theorem solo_record : (guardian allow).Solo NachRegel b (.pruefen none) (nachRecord b) (.inr ()) :=
  .next (by simp [NachRegel]) (.pruefen rfl) (.next (by simp [NachRegel]) .zaehlen
    (.next (by simp [NachRegel]) .schluessel (.answer (by simp [NachRegel]) .buchen)))

theorem solo_refund {trade : Nat} (h : 0 < b.dailyTrades)
    (he : b.buchungen[trade]? = some ⟨b.heute, []⟩) :
    (guardian allow).Solo NachRegel b (.mindern trade) (nachRefund trade b) (.inr ()) := by
  have hdatum : b.datumVon trade = some b.heute := by simp [Budget.datumVon, he]
  refine .next (by simp [NachRegel]) (.mindern h) (.next ?_ .schluessel (.answer ?_ .buchen))
  · refine ⟨fun trade' ht => ?_, by simp⟩
    cases ht
    exact hdatum
  · refine ⟨by simp, fun trade' datum ht e he' => ?_⟩
    cases ht
    rw [show e = ⟨b.heute, []⟩ from Option.some.inj (he'.symm.trans he)]

theorem solo_refund_irgendwann {trade : Nat} (h : 0 < b.dailyTrades) :
    (guardian allow).Solo (fun _ _ => True) b (.mindern trade) (nachRefund trade b) (.inr ()) :=
  .next trivial (.mindern h) (.next trivial .schluessel (.answer trivial .buchen))

theorem solo_reset : (guardian allow).Solo NachRegel b .resetSchluessel b
    (.inl (.resetSetzen (b.budgetVon b.heute))) :=
  .next (by simp [NachRegel]) .resetSchluessel (.next (by simp [NachRegel]) .resetLesen .stop)

theorem rechtzeitig_of_nachRegel {b b' : Budget} {c : Aufruf} {n i : Nat} {q : Punkt}
    {l : List (Done Aufruf Unit)} (h : NachRegel b q) :
    Rechtzeitig ⟨b, Function.update (fun _ => none) i (some ⟨c, n, q⟩), l⟩ (.access i) b' := by
  obtain ⟨htag, heinmal⟩ := h
  refine ⟨?_, ?_, ?_, by simp⟩
  · rintro _ c' n' trade ⟨⟩ hi
    obtain ⟨-, -, hq⟩ : c = c' ∧ n = n' ∧ q = _ := by simpa using hi
    exact htag trade hq
  · rintro _ c' n' trade datum ⟨⟩ hi
    obtain ⟨-, -, hq⟩ : c = c' ∧ n = n' ∧ q = _ := by simpa using hi
    exact heinmal trade datum hq
  · rintro _ c' n' datum ⟨⟩ hi i' j wert hj
    obtain ⟨-, -, rfl⟩ : c = c' ∧ n = n' ∧ q = _ := by simpa using hi
    have hjob : Function.update (fun _ => none) i
        (some (⟨c, n, .buchen .handel datum⟩ : Job Aufruf Punkt)) i' = some j := hj
    rcases update_jobs_eq_some.mp hjob with ⟨-, heq⟩ | ⟨-, hnone⟩
    · obtain rfl := Option.some.inj heq
      intro h
      cases h
    · cases hnone

theorem schritt_resetSetzen {p : Stand} {i n wert : Nat}
    (hi : p.jobs i = some ⟨.resetDailyLimit, n, .resetSetzen wert⟩) :
    (system allow).step p (.access i)
        { store := { p.store with dailyTrades := wert }
          jobs := Function.update p.jobs i none
          log := p.log ++ [⟨i, .resetDailyLimit, n, ()⟩] } ∧
      Rechtzeitig p (.access i) { p.store with dailyTrades := wert } := by
  refine ⟨⟨.answer hi .resetSetzen, by simp [guarded, NeustartAllein]⟩, ?_, ?_, ?_, by simp⟩
  · rintro i' c n' trade ⟨⟩ hi'
    rw [hi] at hi'
    cases hi'
  · rintro i' c n' trade datum ⟨⟩ hi'
    rw [hi] at hi'
    cases hi'
  · rintro i' c n' datum ⟨⟩ hi'
    rw [hi] at hi'
    cases hi'

/-- The eighteenth and the nineteenth of September. -/
def leer : Budget := ⟨0, fun _ => none, "2026-09-18", []⟩
def erster : Budget := nachRecord leer
def tagDanach : Budget := { erster with heute := "2026-09-19" }
def rueckgabeDanach : Budget := nachRefund 0 tagDanach
def handelDanach : Budget := nachRecord rueckgabeDanach
def neuGestartet : Budget := { handelDanach with dailyTrades := handelDanach.budgetVon "2026-09-19" }

theorem leer_start : (system true).start ⟨leer, fun _ => none, []⟩ :=
  ⟨⟨rfl, rfl, rfl⟩, fun _ => rfl, rfl⟩

end Beispiel

end Compliance.Tagesbudget
