import AutonomousEngine.Reconciliation.Scharfschaltung
import Mathlib.Algebra.Order.BigOperators.Group.List
import Mathlib.Tactic.Linarith

/-!
# The fills of one order

The broker reports an order again and again with the quantity filled so far,
through the stream and to each run.  A report is an execution of its own when
its text is new for the order, and the event then carries the whole quantity
filled so far.

So the events of an order are the distinct texts of its reports (`Erfasst`),
and their quantities add up to the last one reported exactly when all reports
spell the same quantity in the same way (`fills_iff`).  A second partial fill
counts the first one again, and a second spelling counts the same fill twice.

A text that is a number has no colon, which is what keeps the fills of
different orders apart.
-/

namespace Reconciliation

open Basis

/-! ## Identities -/

theorem fillId_inj {i j s s' : String} (hs : ':' ∉ s.toList) (hs' : ':' ∉ s'.toList)
    (h : i ++ ":" ++ s = j ++ ":" ++ s') : i = j ∧ s = s' := by
  have hl : i.toList ++ ':' :: s.toList = j.toList ++ ':' :: s'.toList := by
    simpa using congrArg String.toList h
  obtain ⟨hi, hq⟩ := append_cons_inj_of_notMem_right hs hs' hl
  exact ⟨String.toList_inj.mp hi, String.toList_inj.mp hq⟩

def Textlesung.OhneDoppelpunkt (t : Textlesung) : Prop :=
  ∀ s, ':' ∈ s.toList → t.float s = none

theorem Textlesung.OhneDoppelpunkt.notMem {t : Textlesung} (ht : t.OhneDoppelpunkt) {s : String}
    (h : 0 < qty t s) : ':' ∉ s.toList := by
  intro hm
  simp [qty, ht s hm] at h

namespace ReconciliationService

/-! ## One report -/

section

variable (t : Textlesung) (d : ReconciliationService) (o : BrokerOrder) (jetzt : String)

theorem onBrokerFill_cases :
    (d.onBrokerFill t o "" jetzt = (.keine, d) ∧
        (fillId o ∈ d.seenFills ∨ qty t o.filledQty ≤ 0 ∨ qty t o.filledAvgPrice ≤ 0)) ∨
      (d.onBrokerFill t o "" jetzt = (.ungueltig, d) ∧ o.id = "") ∨
      (d.onBrokerFill t o "" jetzt = (.gebucht (fillEvent t o "" jetzt),
          { d with seenFills := d.seenFills.insert (fillId o)
                   fills := d.fills ++ [fillEvent t o "" jetzt] }) ∧
        fillId o ∉ d.seenFills ∧ 0 < qty t o.filledQty ∧ o.id ≠ "") := by
  unfold onBrokerFill
  split
  next hseen => exact .inl ⟨rfl, .inl hseen⟩
  next hnew =>
    split
    next hzero => exact .inl ⟨rfl, .inr hzero⟩
    next hpos =>
      split
      next hid => exact .inr (.inl ⟨rfl, hid⟩)
      next hid => exact .inr (.inr ⟨rfl, hnew, lt_of_not_ge fun h => hpos (.inl h), hid⟩)

end

/-- The events of an order are its reports, each text once. -/
structure Erfasst (t : Textlesung) (i : String) (d : ReconciliationService)
    (r : List BrokerOrder) : Prop where
  adopted : d.adopted = true
  id_eq : ∀ o ∈ r, o.id = i
  positiv : ∀ o ∈ r, 0 < qty t o.filledQty
  gemerkt : ∀ o ∈ r, fillId o ∈ d.seenFills
  bekannt : ∀ s, ':' ∉ s.toList → i ++ ":" ++ s ∈ d.seenFills → ∃ o ∈ r, o.filledQty = s
  ereignis : ∀ o ∈ r, ∃ e ∈ d.fills, e.brokerOrderId = i ∧ e.fillId = fillId o
  herkunft : ∀ e ∈ d.fills, e.brokerOrderId = i →
    ∃ o ∈ r, e.fillId = fillId o ∧ e.filledQty = qty t o.filledQty
  nodup : ((d.fills.filter (·.brokerOrderId = i)).map (·.fillId)).Nodup

/-- A report of an execution, or one of another order. -/
def Meldung (t : Textlesung) (i : String) (o : BrokerOrder) : Prop :=
  o.id ≠ "" ∧ (o.id = i → o.ausgefuehrt = true →
    0 < qty t o.filledQty ∧ 0 < qty t o.filledAvgPrice)

def meldungenVon (i : String) (os : List BrokerOrder) : List BrokerOrder :=
  os.filter fun o => o.ausgefuehrt && o.id = i

section

variable {t : Textlesung} (ht : t.OhneDoppelpunkt) {i : String} {d : ReconciliationService}
  {r : List BrokerOrder}

theorem Erfasst.congr {d' : ReconciliationService} (h : Erfasst t i d r)
    (ha : d'.adopted = d.adopted) (hf : d'.fills = d.fills) (hs : d'.seenFills = d.seenFills) :
    Erfasst t i d' r where
  adopted := ha.trans h.adopted
  id_eq := h.id_eq
  positiv := h.positiv
  gemerkt := hs ▸ h.gemerkt
  bekannt := hs ▸ h.bekannt
  ereignis := hf ▸ h.ereignis
  herkunft := hf ▸ h.herkunft
  nodup := hf ▸ h.nodup

theorem Erfasst.wiederholt (h : Erfasst t i d r) {o : BrokerOrder} (hid : o.id = i)
    (hpos : 0 < qty t o.filledQty) (hseen : fillId o ∈ d.seenFills)
    (hcolon : ':' ∉ o.filledQty.toList) : Erfasst t i d (r ++ [o]) := by
  have hold : ∃ o' ∈ r, o'.filledQty = o.filledQty := h.bekannt _ hcolon (hid ▸ hseen)
  refine { h with id_eq := ?_, positiv := ?_, gemerkt := ?_, bekannt := ?_, ereignis := ?_
                  herkunft := ?_ }
  · intro o' ho'
    rcases List.mem_append.mp ho' with ho' | ho'
    · exact h.id_eq o' ho'
    · obtain rfl := List.mem_singleton.mp ho'
      exact hid
  · intro o' ho'
    rcases List.mem_append.mp ho' with ho' | ho'
    · exact h.positiv o' ho'
    · obtain rfl := List.mem_singleton.mp ho'
      exact hpos
  · intro o' ho'
    rcases List.mem_append.mp ho' with ho' | ho'
    · exact h.gemerkt o' ho'
    · obtain rfl := List.mem_singleton.mp ho'
      exact hseen
  · intro s hs hm
    obtain ⟨o', ho', heq⟩ := h.bekannt s hs hm
    exact ⟨o', List.mem_append_left _ ho', heq⟩
  · intro o' ho'
    rcases List.mem_append.mp ho' with ho' | ho'
    · exact h.ereignis o' ho'
    · obtain rfl := List.mem_singleton.mp ho'
      obtain ⟨o'', ho'', htext⟩ := hold
      have hsame : fillId o'' = fillId o' := by
        simp [fillId, htext, h.id_eq o'' ho'', hid]
      exact hsame ▸ h.ereignis o'' ho''
  · intro e he hei
    obtain ⟨o', ho', hrest⟩ := h.herkunft e he hei
    exact ⟨o', List.mem_append_left _ ho', hrest⟩

include ht

/-- A new text of the order becomes an event. -/
theorem Erfasst.neuerText (h : Erfasst t i d r) {o : BrokerOrder} (jetzt : String)
    (hid : o.id = i) (hpos : 0 < qty t o.filledQty) (hnew : fillId o ∉ d.seenFills) :
    Erfasst t i { d with seenFills := d.seenFills.insert (fillId o)
                         fills := d.fills ++ [fillEvent t o "" jetzt] } (r ++ [o]) := by
  have hcolon := ht.notMem hpos
  refine ⟨h.adopted, ?_, ?_, ?_, ?_, ?_, ?_, ?_⟩
  · intro o' ho'
    rcases List.mem_append.mp ho' with ho' | ho'
    · exact h.id_eq o' ho'
    · obtain rfl := List.mem_singleton.mp ho'
      exact hid
  · intro o' ho'
    rcases List.mem_append.mp ho' with ho' | ho'
    · exact h.positiv o' ho'
    · obtain rfl := List.mem_singleton.mp ho'
      exact hpos
  · intro o' ho'
    rcases List.mem_append.mp ho' with ho' | ho'
    · exact List.mem_insert_iff.mpr (.inr (h.gemerkt o' ho'))
    · obtain rfl := List.mem_singleton.mp ho'
      exact List.mem_insert_iff.mpr (.inl rfl)
  · intro s hs hm
    rcases List.mem_insert_iff.mp hm with heq | hm
    · exact ⟨o, by simp, (fillId_inj hs hcolon heq).2.symm⟩
    · obtain ⟨o', ho', hs'⟩ := h.bekannt s hs hm
      exact ⟨o', List.mem_append_left _ ho', hs'⟩
  · intro o' ho'
    rcases List.mem_append.mp ho' with ho' | ho'
    · obtain ⟨e, he, hrest⟩ := h.ereignis o' ho'
      exact ⟨e, List.mem_append_left _ he, hrest⟩
    · obtain rfl := List.mem_singleton.mp ho'
      exact ⟨fillEvent t o' "" jetzt, by simp, hid, rfl⟩
  · intro e he hei
    rcases List.mem_append.mp he with he | he
    · obtain ⟨o', ho', hrest⟩ := h.herkunft e he hei
      exact ⟨o', List.mem_append_left _ ho', hrest⟩
    · obtain rfl := List.mem_singleton.mp he
      exact ⟨o, by simp, rfl, rfl⟩
  · have hfresh : fillId o ∉ (d.fills.filter (·.brokerOrderId = i)).map (·.fillId) := by
      intro hm
      obtain ⟨e, he, heq⟩ := List.mem_map.mp hm
      obtain ⟨hmem, hei⟩ := List.mem_filter.mp he
      obtain ⟨o', ho', hfo, -⟩ := h.herkunft e hmem (by simpa using hei)
      exact hnew (heq ▸ hfo ▸ h.gemerkt o' ho')
    have hlist : (d.fills ++ [fillEvent t o "" jetzt]).filter (·.brokerOrderId = i) =
        d.fills.filter (·.brokerOrderId = i) ++ [fillEvent t o "" jetzt] := by
      simp [List.filter_append, fillEvent, hid]
    rw [hlist, List.map_append]
    exact List.nodup_append.mpr ⟨h.nodup, by simp, fun a ha b hb => by
      obtain rfl := List.mem_singleton.mp hb
      rintro rfl
      exact hfresh ha⟩

theorem Erfasst.fremd (h : Erfasst t i d r) {o : BrokerOrder} (jetzt : String)
    (hid : o.id ≠ i) (hpos : 0 < qty t o.filledQty) :
    Erfasst t i { d with seenFills := d.seenFills.insert (fillId o)
                         fills := d.fills ++ [fillEvent t o "" jetzt] } r := by
  have hcolon := ht.notMem hpos
  refine ⟨h.adopted, h.id_eq, h.positiv, ?_, ?_, ?_, ?_, ?_⟩
  · exact fun o' ho' => List.mem_insert_iff.mpr (.inr (h.gemerkt o' ho'))
  · intro s hs hm
    rcases List.mem_insert_iff.mp hm with heq | hm
    · exact absurd (fillId_inj hs hcolon heq).1.symm hid
    · exact h.bekannt s hs hm
  · intro o' ho'
    obtain ⟨e, he, hrest⟩ := h.ereignis o' ho'
    exact ⟨e, List.mem_append_left _ he, hrest⟩
  · intro e he hei
    rcases List.mem_append.mp he with he | he
    · exact h.herkunft e he hei
    · obtain rfl := List.mem_singleton.mp he
      exact absurd hei hid
  · have hlist : (d.fills ++ [fillEvent t o "" jetzt]).filter (·.brokerOrderId = i) =
        d.fills.filter (·.brokerOrderId = i) := by
      simp [List.filter_append, fillEvent, hid]
    rw [hlist]
    exact h.nodup

theorem Erfasst.onBrokerFill (h : Erfasst t i d r) {o : BrokerOrder} (jetzt : String)
    (ho : Meldung t i o) (ha : o.ausgefuehrt = true) :
    (d.onBrokerFill t o "" jetzt).1 ≠ .ungueltig ∧
      Erfasst t i (d.onBrokerFill t o "" jetzt).2 (r ++ meldungenVon i [o]) := by
  have hone : meldungenVon i [o] = if o.id = i then [o] else [] := by
    by_cases hid : o.id = i <;> simp [meldungenVon, ha, hid]
  rw [hone]
  rcases onBrokerFill_cases t d o jetzt with ⟨heq, hwhy⟩ | ⟨heq, hid⟩ | ⟨heq, hnew, hpos, hne⟩
  · rw [heq]
    refine ⟨by simp, ?_⟩
    by_cases hid : o.id = i
    · obtain ⟨hpos, hprice⟩ := ho.2 hid ha
      have hseen : fillId o ∈ d.seenFills :=
        hwhy.resolve_right fun hz => hz.elim (absurd hpos ∘ not_lt.mpr) (absurd hprice ∘ not_lt.mpr)
      rw [if_pos hid]
      exact h.wiederholt hid hpos hseen (ht.notMem hpos)
    · rw [if_neg hid, List.append_nil]
      exact h
  · exact absurd hid ho.1
  · rw [heq]
    refine ⟨by simp, ?_⟩
    by_cases hid : o.id = i
    · rw [if_pos hid]
      exact h.neuerText ht jetzt hid hpos hnew
    · rw [if_neg hid, List.append_nil]
      exact h.fremd ht jetzt hid hpos

theorem Erfasst.trageNach (h : Erfasst t i d r) (jetzt : String) {os : List BrokerOrder}
    (hos : ∀ o ∈ os, Meldung t i o) :
    Erfasst t i (d.trageNach t jetzt os).2 (r ++ meldungenVon i os) := by
  induction os generalizing d r with
  | nil => simpa [ReconciliationService.trageNach, meldungenVon] using h
  | cons o os ih =>
      have hrest : ∀ o' ∈ os, Meldung t i o' := fun o' ho' => hos o' (List.mem_cons_of_mem o ho')
      have hcons : meldungenVon i (o :: os) = meldungenVon i [o] ++ meldungenVon i os := by
        rw [← List.singleton_append]
        exact List.filter_append _ _
      unfold ReconciliationService.trageNach
      split
      next hno =>
        have hnone : meldungenVon i [o] = [] := by
          simp [meldungenVon, show o.ausgefuehrt = false by simpa using hno]
        rw [hcons, hnone, List.nil_append]
        exact ih h hrest
      next hyes =>
        have ha : o.ausgefuehrt = true := by simpa using hyes
        obtain ⟨hvalid, hnext⟩ := h.onBrokerFill ht jetzt (hos o List.mem_cons_self) ha
        rw [hcons, ← List.append_assoc]
        split
        next d' hb =>
          rw [hb] at hnext
          exact ih hnext hrest
        next d' hb => exact absurd (congrArg Prod.fst hb) hvalid
        next e d' hb =>
          rw [hb] at hnext
          exact ih hnext hrest

end

/-- The fills after a whole run are those of its comparison. -/
theorem runOnce_fills (t : Textlesung) {d : ReconciliationService} (l : Lauf)
    (h : d.adopted = true) :
    let d' := (d.trageNach t l.finishedAt (watch l.antworten).fillOrders).2
    (d.runOnce t l).2.adopted = d'.adopted ∧ (d.runOnce t l).2.fills = d'.fills ∧
      (d.runOnce t l).2.seenFills = d'.seenFills := by
  have hrep (d : ReconciliationService) (r : ReconciliationRecord) :
      (d.report r).fills = d.fills ∧ (d.report r).seenFills = d.seenFills := by
    unfold report
    dsimp only
    split
    next => exact ⟨rfl, rfl⟩
    next =>
      split
      next => exact ⟨rfl, rfl⟩
      next => split <;> exact ⟨rfl, rfl⟩
  have hcmp : (d.compare t l.finishedAt (watch l.antworten)).2 =
      (d.trageNach t l.finishedAt (watch l.antworten).fillOrders).2 := by
    simp [ReconciliationService.compare, h]
  unfold runOnce
  dsimp only
  split
  next d' hc =>
    rw [hc] at hcmp
    rw [← hcmp]
    exact ⟨rfl, rfl, rfl⟩
  next breaks d' hc =>
    rw [hc] at hcmp
    rw [← hcmp, report_adopted, (hrep _ _).1, (hrep _ _).2]
    exact ⟨rfl, rfl, rfl⟩

/-! ## Runs -/

def gemeldet : Aktion → List BrokerOrder
  | .lauf l => (watch l.antworten).fillOrders
  | .strom o _ => [o]
  | _ => []

/-- The service from any state in which it has adopted its books and has not met
an order. -/
def abAdoption (t : Textlesung) (i : String) : System ReconciliationService Aktion where
  start d := d.adopted = true ∧ (∀ e ∈ d.fills, e.brokerOrderId ≠ i) ∧
    ∀ s, i ++ ":" ++ s ∉ d.seenFills
  step := (system t).step

/-- The reports of the order are executions, with a quantity and a price, and no
order comes without an id. -/
def Meldend (t : Textlesung) (i : String) (_ : ReconciliationService) (a : Aktion)
    (_ : ReconciliationService) : Prop :=
  ∀ o ∈ gemeldet a, Meldung t i o

/-- The runs together with the reports of the order so far. -/
def verfolgt (t : Textlesung) (i : String) :
    System (ReconciliationService × List BrokerOrder) Aktion :=
  ((abAdoption t i).restrict (Meldend t i)).observe fun _ a => meldungenVon i (gemeldet a)

/-- In every state of a run the events of the order are its reports, each text
once. -/
theorem erfasst_of_reach {t : Textlesung} (ht : t.OhneDoppelpunkt) {i : String}
    {x : ReconciliationService × List BrokerOrder} (h : (verfolgt t i).Reach x) :
    Erfasst t i x.1 x.2 := by
  refine h.invariant (I := fun x => Erfasst t i x.1 x.2) (fun c hc => ?_) fun c a c' ih hs => ?_
  · obtain ⟨d, r⟩ := c
    obtain ⟨⟨ha, hf, hs⟩, rfl⟩ := hc
    refine ⟨ha, by simp, by simp, by simp, fun s _ hm => absurd hm (hs s), by simp,
      fun e he hei => absurd hei (hf e he), ?_⟩
    rw [List.filter_eq_nil_iff.mpr fun e he => by simpa using hf e he]
    exact List.nodup_nil
  · obtain ⟨d, r⟩ := c
    obtain ⟨d', r'⟩ := c'
    obtain ⟨⟨hst, hm⟩, rfl⟩ := hs
    obtain rfl : d' = d.schritt t a := hst
    cases a with
    | lauf l =>
        obtain ⟨ha, hf, hs⟩ := runOnce_fills t l ih.adopted
        exact (ih.trageNach ht l.finishedAt hm).congr ha hf hs
    | strom o jetzt =>
        show Erfasst t i (d.beiHandelsereignis t o jetzt) (r ++ meldungenVon i [o])
        unfold beiHandelsereignis
        split
        next ha => exact (ih.onBrokerFill ht jetzt (hm o (by simp [gemeldet])) ha).2
        next ha => simpa [meldungenVon, ha] using ih
    | anmelden | abmelden | setzePositionen | aufheben =>
        have hsame : Erfasst t i d (r ++ []) := by
          rw [List.append_nil]
          exact ih
        exact hsame.congr rfl rfl rfl

/-! ## Accounts -/

/-- The quantity filled so far when an event was reported. -/
def stand (t : Textlesung) (e : FillEvent) : Option Rat :=
  t.float (String.ofList (e.fillId.toList.drop (e.brokerOrderId.length + 1)))

def zuletzt (t : Textlesung) (r : List BrokerOrder) : Rat :=
  (r.getLast?.map fun o => qty t o.filledQty).getD 0

/-- The events of an order contain no execution twice, and their quantities add
up to the last one reported. -/
def Ausgeglichen (t : Textlesung) (i : String) (fills : List FillEvent) (r : List BrokerOrder) :
    Prop :=
  ((fills.filter (·.brokerOrderId = i)).map (stand t)).Nodup ∧
    ((fills.filter (·.brokerOrderId = i)).map (·.filledQty)).sum = zuletzt t r

theorem Erfasst.filledQty_pos {t : Textlesung} {i : String} {d : ReconciliationService}
    {r : List BrokerOrder} (h : Erfasst t i d r) {e : FillEvent}
    (he : e ∈ d.fills.filter (·.brokerOrderId = i)) : 0 < e.filledQty := by
  obtain ⟨hm, hi⟩ := List.mem_filter.mp he
  obtain ⟨o, ho, -, hq⟩ := h.herkunft e hm (by simpa using hi)
  exact hq ▸ h.positiv o ho

/-- A list of positive numbers with two different positions adds up to more than
one of its members. -/
theorem lt_sum_of_mem_of_ne {es : List FillEvent} (hpos : ∀ e ∈ es, 0 < e.filledQty)
    {e e' : FillEvent} (he : e ∈ es) (he' : e' ∈ es) (hne : e ≠ e') :
    e.filledQty < (es.map (·.filledQty)).sum := by
  have hnonneg (l : List FillEvent) (hl : ∀ x ∈ l, x ∈ es) :
      0 ≤ (l.map (·.filledQty)).sum :=
    List.sum_nonneg fun q hq => by
      obtain ⟨x, hx, rfl⟩ := List.mem_map.mp hq
      exact (hpos x (hl x hx)).le
  obtain ⟨l₁, l₂, rfl⟩ := List.append_of_mem he
  have hin : e' ∈ l₁ ∨ e' ∈ l₂ := by
    rcases List.mem_append.mp he' with h | h
    · exact .inl h
    · exact .inr ((List.mem_cons.mp h).resolve_left (Ne.symm hne))
  have hpos' : 0 < e'.filledQty := hpos e' he'
  have h₁ := hnonneg l₁ fun x hx => List.mem_append_left _ hx
  have h₂ := hnonneg l₂ fun x hx => by simp [hx]
  have hle (l : List FillEvent) (hl : ∀ x ∈ l, x ∈ l₁ ++ e :: l₂) (hm : e' ∈ l) :
      e'.filledQty ≤ (l.map (·.filledQty)).sum :=
    List.single_le_sum (fun q hq => by
      obtain ⟨x, hx, rfl⟩ := List.mem_map.mp hq
      exact (hpos x (hl x hx)).le) _ (List.mem_map_of_mem hm)
  simp only [List.map_append, List.map_cons, List.sum_append, List.sum_cons]
  rcases hin with h | h
  · have := hle l₁ (fun x hx => List.mem_append_left _ hx) h
    linarith
  · have := hle l₂ (fun x hx => by simp [hx]) h
    linarith

/-- In every state of a run the events of the order account for its reports
exactly when all its reports carry the same text. -/
theorem fills_iff {t : Textlesung} (ht : t.OhneDoppelpunkt) {i : String}
    {x : ReconciliationService × List BrokerOrder} (h : (verfolgt t i).Reach x) :
    Ausgeglichen t i x.1.fills x.2 ↔ ∀ o ∈ x.2, ∀ o' ∈ x.2, o.filledQty = o'.filledQty := by
  have hE := erfasst_of_reach ht h
  obtain ⟨d, r⟩ := x
  dsimp only at hE ⊢
  rcases List.eq_nil_or_concat' r with rfl | ⟨r₀, o, rfl⟩
  · have hnone : d.fills.filter (·.brokerOrderId = i) = [] := by
      rw [List.filter_eq_nil_iff]
      intro e he hei
      obtain ⟨o, ho, -⟩ := hE.herkunft e he (by simpa using hei)
      cases ho
    simp [Ausgeglichen, hnone, zuletzt]
  · have hlast : zuletzt t (r₀ ++ [o]) = qty t o.filledQty := by simp [zuletzt]
    have hmem : o ∈ r₀ ++ [o] := by simp
    obtain ⟨e, he, hei, hid⟩ := hE.ereignis o hmem
    have heE : e ∈ d.fills.filter (·.brokerOrderId = i) :=
      List.mem_filter.mpr ⟨he, by simpa using hei⟩
    have hcolon (o' : BrokerOrder) (ho' : o' ∈ r₀ ++ [o]) : ':' ∉ o'.filledQty.toList :=
      ht.notMem (hE.positiv o' ho')
    have hq : e.filledQty = qty t o.filledQty := by
      obtain ⟨o', ho', hid', hq'⟩ := hE.herkunft e he hei
      have htext := (fillId_inj (hcolon o hmem) (hcolon o' ho') (hid.symm.trans hid')).2
      rw [hq', htext]
    constructor
    · intro hb o₁ ho₁ o₂ ho₂
      have hsame : ∀ o' ∈ r₀ ++ [o], o'.filledQty = o.filledQty := by
        intro o' ho'
        by_contra hne
        obtain ⟨e', he', hei', hid'⟩ := hE.ereignis o' ho'
        have hee : e ≠ e' := by
          rintro rfl
          exact hne (fillId_inj (hcolon o' ho') (hcolon o hmem) (hid'.symm.trans hid)).2
        have hlt := lt_sum_of_mem_of_ne (fun _ => hE.filledQty_pos) heE
          (List.mem_filter.mpr ⟨he', by simpa using hei'⟩) hee
        rw [hb.2, hlast, hq] at hlt
        exact lt_irrefl _ hlt
      rw [hsame o₁ ho₁, hsame o₂ ho₂]
    · intro hall
      have hone : d.fills.filter (·.brokerOrderId = i) = [e] := by
        have hids : ∀ e' ∈ d.fills.filter (·.brokerOrderId = i), e'.fillId = e.fillId := by
          intro e' he'
          obtain ⟨hm', hi'⟩ := List.mem_filter.mp he'
          obtain ⟨o', ho', hid', -⟩ := hE.herkunft e' hm' (by simpa using hi')
          rw [hid', hid, fillId, fillId, hall o' ho' o hmem, hE.id_eq o' ho', hE.id_eq o hmem]
        cases hl : d.fills.filter (·.brokerOrderId = i) with
        | nil => simp [hl] at heE
        | cons a l =>
            have hnd := hE.nodup
            rw [hl] at hnd hids heE
            cases l with
            | nil => rw [List.mem_singleton.mp heE]
            | cons b l =>
                have hab : a.fillId = b.fillId := (hids a (by simp)).trans (hids b (by simp)).symm
                exact absurd (by simp [hab]) (List.nodup_cons.mp hnd).1
      simp [Ausgeglichen, hone, hlast, hq]

/-- Reads the texts of a few quantities and prices. -/
def zehner : Textlesung where
  float s :=
    if s = "3" then some 3
    else if s = "10" then some 10
    else if s = "10.0" then some 10
    else if s = "100" then some 100
    else none
  repr _ := ""
  isdigit _ := false

theorem zehner_ohneDoppelpunkt : zehner.OhneDoppelpunkt := by
  intro s hs
  have hne (s' : String) (h' : ':' ∉ s'.toList) : s ≠ s' := by
    rintro rfl
    exact h' hs
  simp [zehner, hne "3" (by decide), hne "10" (by decide), hne "10.0" (by decide),
    hne "100" (by decide)]

def kauf (filledQty : String) (status : OrderStatus) : BrokerOrder :=
  ⟨"o-1", "entry-0-d1", "AAPL", .buy, status, filledQty, "100", none⟩

def leereBuecher : ReconciliationService :=
  { neu false .leer with adopted := true, reconciledOnce := true }

/-- The service after reports of that purchase through the stream. -/
def nachMeldungen (os : List BrokerOrder) : ReconciliationService × List BrokerOrder :=
  (os.foldl (fun d o => d.beiHandelsereignis zehner o "10:00") leereBuecher, os)

/-- Reports of the purchase, in any number, are a run. -/
theorem nachMeldungen_reach {os : List BrokerOrder}
    (h : ∀ o ∈ os, o = kauf "3" .partiallyFilled ∨ o = kauf "10" .filled) :
    (verfolgt zehner "o-1").Reach (nachMeldungen os) := by
  induction os using List.reverseRecOn with
  | nil => exact .start ⟨⟨rfl, by simp [leereBuecher, neu, nachMeldungen],
      by simp [leereBuecher, neu, nachMeldungen]⟩, rfl⟩
  | append_singleton os o ih =>
      have hprev := ih fun o' ho' => h o' (List.mem_append_left _ ho')
      refine .step (a := .strom o "10:00") hprev ⟨⟨?_, ?_⟩, ?_⟩
      · show _ = _
        simp [nachMeldungen, schritt]
      · intro o' ho'
        obtain rfl : o' = o := by simpa [gemeldet] using ho'
        rcases h o' (by simp) with rfl | rfl
        · exact ⟨by decide, fun _ _ => by simp [qty, zehner, kauf]⟩
        · exact ⟨by decide, fun _ _ => by simp [qty, zehner, kauf]⟩
      · rcases h o (by simp) with rfl | rfl
        · rfl
        · rfl

/-- An order filled at once and reported twice is accounted for. -/
theorem fills_iff_auf_einmal :
    Ausgeglichen zehner "o-1" (nachMeldungen [kauf "10" .filled, kauf "10" .filled]).1.fills
      [kauf "10" .filled, kauf "10" .filled] :=
  (fills_iff zehner_ohneDoppelpunkt (x := nachMeldungen [kauf "10" .filled, kauf "10" .filled])
    (nachMeldungen_reach (by simp))).mpr (by simp [nachMeldungen])

/-- Three shares and then ten in all are entered as thirteen. -/
theorem fills_doppelt_gezaehlt :
    (verfolgt zehner "o-1").Reach
        (nachMeldungen [kauf "3" .partiallyFilled, kauf "10" .filled]) ∧
      ((nachMeldungen [kauf "3" .partiallyFilled, kauf "10" .filled]).1.fills.map
        (·.filledQty)).sum = 13 ∧
      ¬Ausgeglichen zehner "o-1"
        (nachMeldungen [kauf "3" .partiallyFilled, kauf "10" .filled]).1.fills
        [kauf "3" .partiallyFilled, kauf "10" .filled] := by
  have hfills : (nachMeldungen [kauf "3" .partiallyFilled, kauf "10" .filled]).1.fills =
      [fillEvent zehner (kauf "3" .partiallyFilled) "" "10:00",
        fillEvent zehner (kauf "10" .filled) "" "10:00"] := by
    simp [nachMeldungen, beiHandelsereignis, BrokerOrder.ausgefuehrt, kauf, onBrokerFill, fillId,
      leereBuecher, neu, qty, zehner]
  refine ⟨nachMeldungen_reach (by simp), ?_, fun h => ?_⟩
  · rw [hfills]
    simp [fillEvent, qty, zehner, kauf]
    norm_num
  · have hsum := h.2
    rw [hfills] at hsum
    simp [fillEvent, qty, zehner, kauf, zuletzt] at hsum

end ReconciliationService

end Reconciliation
