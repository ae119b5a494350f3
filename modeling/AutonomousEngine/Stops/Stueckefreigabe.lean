import AutonomousEngine.Basis.ExtRat
import AutonomousEngine.Basis.Program
import AutonomousEngine.Stops.Planer

/-!
# Releasing shares before a sale

The own stops at the broker bind the shares of a position.  `gib_stuecke_frei`
cancels them before a sale, waits until the broker reports their end, reads what
is free then, and bounds the quantity of the sale by it.

This is a program that asks the broker again and again.  An order may be reported
open at one time and cancelled or filled at the next, a call may raise at any time,
and the deadline may strike between any two of them.  The results are exactly those
of `Verkauf.gibStueckeFrei`, where the broker's answers are fixed beforehand
(`Gang.verkauf`).
-/

namespace Stops

open Basis
open Idempotenz (Ziffern)
open Verkauf (minBrokerQty epsilon)

/-! ## What is asked -/

/-- A position as the broker reports it.  A number is what `float` makes of the field,
none where it raises. -/
structure Bestand where
  symbol : String
  qty : Option ExtRat
  qtyAvailable : Option (Option ExtRat)
deriving DecidableEq

/-- What comes of a look at an order, its status as `_status` reads it. -/
inductive Stand where
  | fristAbgelaufen
  | unlesbar
  | gemeldet (status : String)
deriving DecidableEq

inductive Anfrage where
  | offeneOrders
  | storniere (orderId symbol decisionId : String)
  /-- The order in which a set of ids is gone through. -/
  | folge (offen : List String)
  | stand (orderId : String)
  /-- The pause between two rounds, in which the deadline may pass. -/
  | takt
  | positionen
deriving DecidableEq

/-- The answers, none when a call raises. -/
abbrev Antwort : Anfrage → Type
  | .offeneOrders => Option (List LiegendeOrder)
  | .storniere _ _ _ => Bool
  | .folge offen => {folge : List String // folge.Perm offen}
  | .stand _ => Stand
  | .takt => Bool
  | .positionen => Option (List Bestand)

abbrev Verlauf := List (Σ i, Antwort i)

abbrev Ablauf := Program Anfrage Antwort

/-! ## The program -/

def freiEnde : List String :=
  ["canceled", "expired", "rejected", "replaced", "done_for_day", "filled"]

/-- `str(order.id)`. -/
def orderId (o : LiegendeOrder) : String := o.id.getD "None"

inductive FreigabeGrund where
  | stornoOffen (offen : List String)
  | bestandUnlesbar
  | nichtsFrei (frei : ExtRat)
  | begrenzt (frei : ExtRat)
deriving DecidableEq

/-- What is free before a sale. -/
structure Freigabe where
  menge : ExtRat
  grund : Option FreigabeGrund
  storniert : List String
deriving DecidableEq

def zahl : Option ExtRat → ExtRat
  | none => 0
  | some x => x.abs

/-- What the broker reports as free, the field of the available shares or else that of
all of them. -/
def gemeldet (positionen : List Bestand) (symbol : String) : Option ExtRat :=
  match positionen.find? fun p => p.symbol = symbol with
  | none => some 0
  | some p => p.qtyAvailable.getD p.qty

/-- `_bestand_frei` of a report. -/
def bestandFrei (positionen : List Bestand) (symbol : String) : ExtRat :=
  match positionen.find? fun p => p.symbol = symbol with
  | none => 0
  | some p => zahl (p.qtyAvailable.getD p.qty)

def storniereAlle (symbol : String) : List LiegendeOrder → Ablauf Unit
  | [] => .done ()
  | o :: os =>
      .ask (.storniere (orderId o) symbol (o.clientOrderId.getD "None")) fun _ =>
        storniereAlle symbol os

/-- A look at each order that is not confirmed.  It says whether the deadline struck,
and which orders are open and confirmed then. -/
def runde : List String → List String → List String → Ablauf (Bool × List String × List String)
  | [], offen, bestaetigt => .done (false, offen, bestaetigt)
  | oid :: rest, offen, bestaetigt =>
      .ask (.stand oid) fun
        | .fristAbgelaufen => .done (true, offen, bestaetigt)
        | .unlesbar => runde rest offen bestaetigt
        | .gemeldet status =>
            if status ∈ freiEnde then runde rest (offen.erase oid) (oid :: bestaetigt)
            else runde rest offen bestaetigt

/-- `_schleife` of `_warte_auf_stornos`.  There is a pause in each round, so the
deadline bounds the number of rounds. -/
def schleife : ℕ → List String → List String → Ablauf (List String)
  | 0, _, bestaetigt => .done bestaetigt
  | runden + 1, offen, bestaetigt =>
      if offen = [] then .done bestaetigt
      else .ask (.folge offen) fun folge =>
        runde folge.1 offen bestaetigt >>= fun (ende, offen, bestaetigt) =>
          if ende || offen.isEmpty then .done bestaetigt
          else .ask .takt fun abgelaufen =>
            if abgelaufen then .done bestaetigt else schleife runden offen bestaetigt

/-- `_warte_auf_stornos` with `ende=_FREI_ENDE`. -/
def warteAufStornos (runden : ℕ) (orderIds : List String) : Ablauf (List String) :=
  schleife runden orderIds.dedup []

/-- The quantity that may be sold with so many free shares. -/
def bemessen (menge frei : ExtRat) (ids : List String) : Freigabe :=
  let verkaufbar := ExtRat.pyMin (zahl (some menge)) frei
  if verkaufbar < .of minBrokerQty then ⟨0, some (.nichtsFrei frei), ids⟩
  else if verkaufbar < zahl (some menge) - .of epsilon then
    ⟨verkaufbar, some (.begrenzt frei), ids⟩
  else ⟨verkaufbar, none, ids⟩

section

variable (z : Ziffern) (runden : ℕ) (symbol : String) (menge : ExtRat)

/-- The own stops among the orders on the symbol. -/
def eigene (offene : List LiegendeOrder) : List LiegendeOrder :=
  (offene.filter fun o => o.symbol = symbol).filter fun o => istEigenerStop z o

/-- `gib_stuecke_frei` once open orders on the symbol are read. -/
def gibEigeneFrei (eigene : List LiegendeOrder) : Ablauf Freigabe :=
  storniereAlle symbol eigene >>= fun _ =>
    let ids := eigene.map orderId
    warteAufStornos runden ids >>= fun freiIds =>
      let offen := (ids.dedup.filter fun id => id ∉ freiIds).mergeSort
      if offen ≠ [] then .done ⟨0, some (.stornoOffen offen), freiIds.mergeSort⟩
      else .ask .positionen fun
        | none => .done ⟨0, some .bestandUnlesbar, ids⟩
        | some positionen => .done (bemessen menge (bestandFrei positionen symbol) ids)

def gibStueckeFrei : Ablauf Freigabe :=
  .ask .offeneOrders fun
    | none => .done ⟨menge, none, []⟩
    | some offene =>
        if offene.filter (fun o => o.symbol = symbol) = [] then .done ⟨menge, none, []⟩
        else gibEigeneFrei runden symbol menge (eigene z symbol offene)

end

/-! ## What a log says -/

/-- The broker reported the end of an order. -/
def Bestaetigt (l : Verlauf) (id : String) : Prop :=
  ∃ status ∈ freiEnde, (⟨.stand id, Stand.gemeldet status⟩ : Σ i, Antwort i) ∈ l

/-- The questions of the loop that waits. -/
def Anfrage.wartend : Anfrage → Bool
  | .folge _ | .stand _ | .takt => true
  | _ => false

/-- The questions that cancel an order of a list. -/
def Anfrage.Storno (symbol : String) (os : List LiegendeOrder) (i : Anfrage) : Prop :=
  ∃ o ∈ os, i = .storniere (orderId o) symbol (o.clientOrderId.getD "None")

@[simp] theorem bestaetigt_nil (id : String) : ¬Bestaetigt [] id := by
  rintro ⟨_, _, h⟩
  cases h

@[simp] theorem bestaetigt_cons_stand {oid id : String} {a : Stand} {l : Verlauf} :
    Bestaetigt (⟨.stand oid, a⟩ :: l) id ↔
      (id = oid ∧ ∃ status ∈ freiEnde, a = .gemeldet status) ∨ Bestaetigt l id := by
  constructor
  · rintro ⟨status, hs, h⟩
    rcases List.mem_cons.mp h with h | h
    · cases h
      exact .inl ⟨rfl, status, hs, rfl⟩
    · exact .inr ⟨status, hs, h⟩
  · rintro (⟨rfl, status, hs, rfl⟩ | ⟨status, hs, h⟩)
    · exact ⟨status, hs, .head _⟩
    · exact ⟨status, hs, .tail _ h⟩

theorem bestaetigt_append {l l' : Verlauf} {id : String} :
    Bestaetigt (l ++ l') id ↔ Bestaetigt l id ∨ Bestaetigt l' id := by
  unfold Bestaetigt
  simp only [List.mem_append, and_or_left, exists_or]

theorem bestaetigt_cons_of_ne {e : Σ i, Antwort i} {l : Verlauf} {id : String}
    (h : e.1 ≠ .stand id) : Bestaetigt (e :: l) id ↔ Bestaetigt l id := by
  constructor
  · rintro ⟨status, hs, hmem⟩
    rcases List.mem_cons.mp hmem with heq | hmem
    · exact absurd (congrArg Sigma.fst heq).symm h
    · exact ⟨status, hs, hmem⟩
  · rintro ⟨status, hs, hmem⟩
    exact ⟨status, hs, .tail _ hmem⟩

/-! ## What the parts do -/

theorem yields_storniereAlle {symbol : String} {os : List LiegendeOrder} {l : Verlauf} {u : Unit}
    (h : (storniereAlle symbol os).Yields l u) : ∀ e ∈ l, e.1.Storno symbol os := by
  induction os generalizing l with
  | nil =>
      obtain ⟨rfl, -⟩ := h
      intro e he
      cases he
  | cons o os ih =>
      obtain ⟨a, l, rfl, hl⟩ := h
      intro e he
      rcases List.mem_cons.mp he with rfl | he
      · exact ⟨o, .head _, rfl⟩
      · obtain ⟨o', ho', heq⟩ := ih hl e he
        exact ⟨o', .tail _ ho', heq⟩

/-- A round confirms the orders that it sees ended, and no others. -/
theorem yields_runde {rest offen bestaetigt : List String} {l : Verlauf}
    {x : Bool × List String × List String} (h : (runde rest offen bestaetigt).Yields l x) :
    (∀ e ∈ l, e.1.wartend = true) ∧ ∀ id, id ∈ x.2.2 ↔ id ∈ bestaetigt ∨ Bestaetigt l id := by
  induction rest generalizing offen bestaetigt l with
  | nil =>
      obtain ⟨rfl, rfl⟩ := h
      exact ⟨List.forall_mem_nil _, fun id => by simp⟩
  | cons oid rest ih =>
      obtain ⟨a, l, rfl, hl⟩ := h
      have hkopf : ∀ l' : Verlauf, (∀ e ∈ l', e.1.wartend = true) →
          ∀ e ∈ (⟨.stand oid, a⟩ : Σ i, Antwort i) :: l', e.1.wartend = true := by
        intro l' hl' e he
        rcases List.mem_cons.mp he with rfl | he
        · rfl
        · exact hl' e he
      cases a with
      | fristAbgelaufen =>
          obtain ⟨rfl, rfl⟩ := hl
          exact ⟨hkopf [] (List.forall_mem_nil _), fun id => by simp⟩
      | unlesbar =>
          obtain ⟨hw, hb⟩ := ih hl
          exact ⟨hkopf l hw, fun id => by simp [hb id]⟩
      | gemeldet status =>
          by_cases hs : status ∈ freiEnde
          · simp only [if_pos hs] at hl
            obtain ⟨hw, hb⟩ := ih hl
            refine ⟨hkopf l hw, fun id => ?_⟩
            simp [hb id, hs, or_assoc, or_left_comm]
          · simp only [if_neg hs] at hl
            obtain ⟨hw, hb⟩ := ih hl
            exact ⟨hkopf l hw, fun id => by simp [hb id, hs]⟩

/-- The loop confirms the orders that it sees ended, and no others. -/
theorem yields_schleife {runden : ℕ} {offen bestaetigt ende : List String} {l : Verlauf}
    (h : (schleife runden offen bestaetigt).Yields l ende) :
    (∀ e ∈ l, e.1.wartend = true) ∧ ∀ id, id ∈ ende ↔ id ∈ bestaetigt ∨ Bestaetigt l id := by
  induction runden generalizing offen bestaetigt l with
  | zero =>
      obtain ⟨rfl, rfl⟩ := h
      exact ⟨List.forall_mem_nil _, fun id => by simp⟩
  | succ runden ih =>
      unfold schleife at h
      by_cases hoffen : offen = []
      · rw [if_pos hoffen] at h
        obtain ⟨rfl, rfl⟩ := h
        exact ⟨List.forall_mem_nil _, fun id => by simp⟩
      rw [if_neg hoffen] at h
      obtain ⟨folge, l, rfl, hl⟩ := h
      obtain ⟨⟨frist, offen', best'⟩, l₁, l₂, rfl, hrunde, hrest⟩ := yields_bind.mp hl
      obtain ⟨hw, hb⟩ := yields_runde hrunde
      have hfolge : ∀ id, Bestaetigt (⟨.folge offen, folge⟩ :: (l₁ ++ l₂)) id ↔
          Bestaetigt l₁ id ∨ Bestaetigt l₂ id := fun id =>
        (bestaetigt_cons_of_ne (by simp)).trans bestaetigt_append
      have hwart : (∀ e ∈ l₂, e.1.wartend = true) →
          ∀ e ∈ (⟨.folge offen, folge⟩ : Σ i, Antwort i) :: (l₁ ++ l₂), e.1.wartend = true := by
        intro h₂ e he
        rcases List.mem_cons.mp he with rfl | he
        · rfl
        · exact (List.mem_append.mp he).elim (hw e) (h₂ e)
      dsimp only at hrest
      split at hrest
      next =>
        obtain ⟨rfl, rfl⟩ := hrest
        refine ⟨hwart (List.forall_mem_nil _), fun id => ?_⟩
        rw [hfolge, hb id]
        simp
      next =>
        obtain ⟨abgelaufen, l₂, rfl, hrest⟩ := hrest
        have htakt : ∀ id, Bestaetigt (⟨.takt, abgelaufen⟩ :: l₂) id ↔ Bestaetigt l₂ id :=
          fun id => bestaetigt_cons_of_ne (by simp)
        dsimp only at hrest
        split at hrest
        next =>
          obtain ⟨rfl, rfl⟩ := hrest
          refine ⟨hwart (List.forall_mem_singleton.mpr rfl), fun id => ?_⟩
          rw [hfolge, htakt, hb id]
          simp
        next =>
          obtain ⟨hw₂, hb₂⟩ := ih hrest
          refine ⟨hwart fun e he => ?_, fun id => ?_⟩
          · rcases List.mem_cons.mp he with rfl | he
            · rfl
            · exact hw₂ e he
          · rw [hfolge, htakt, hb₂ id, hb id, or_assoc]

/-! ## The ways a release goes -/

section

variable {z : Ziffern} {runden : ℕ} {symbol : String} {menge : ExtRat}

/-- Open orders are read, some on the symbol, and its own stops are cancelled and
waited for. -/
structure Vorlauf (z : Ziffern) (symbol : String) (offene : List LiegendeOrder) (l : Verlauf) :
    Prop where
  liegt : ∃ o ∈ offene, o.symbol = symbol
  fragen : ∀ e ∈ l, e.1.Storno symbol (eigene z symbol offene) ∨ e.1.wartend = true

/-- The ways a release goes, each with its log and its result. -/
inductive Gang (z : Ziffern) (symbol : String) (menge : ExtRat) : Verlauf → Freigabe → Prop where
  | unlesbar : Gang z symbol menge [⟨.offeneOrders, none⟩] ⟨menge, none, []⟩
  | nichts {offene} : (∀ o ∈ offene, o.symbol ≠ symbol) →
      Gang z symbol menge [⟨.offeneOrders, some offene⟩] ⟨menge, none, []⟩
  | stornoOffen {offene l offen ids} : Vorlauf z symbol offene l →
      (∃ o ∈ eigene z symbol offene, ¬Bestaetigt l (orderId o)) →
      Gang z symbol menge (⟨.offeneOrders, some offene⟩ :: l) ⟨0, some (.stornoOffen offen), ids⟩
  | bestandUnlesbar {offene l ids} : Vorlauf z symbol offene l →
      (∀ o ∈ eigene z symbol offene, Bestaetigt l (orderId o)) →
      Gang z symbol menge (⟨.offeneOrders, some offene⟩ :: (l ++ [⟨.positionen, none⟩]))
        ⟨0, some .bestandUnlesbar, ids⟩
  | bemessen {offene l positionen ids} : Vorlauf z symbol offene l →
      (∀ o ∈ eigene z symbol offene, Bestaetigt l (orderId o)) →
      Gang z symbol menge (⟨.offeneOrders, some offene⟩ :: (l ++ [⟨.positionen, some positionen⟩]))
        (bemessen menge (bestandFrei positionen symbol) ids)

/-- Orders that are cancelled are not looked at. -/
theorem Anfrage.Storno.not_stand {os : List LiegendeOrder} {i : Anfrage} (h : i.Storno symbol os)
    (id : String) : i ≠ .stand id := by
  obtain ⟨o, -, rfl⟩ := h
  exact fun h => by cases h

theorem bestaetigt_stornos {os : List LiegendeOrder} {l l' : Verlauf}
    (h : ∀ e ∈ l, e.1.Storno symbol os) (id : String) :
    Bestaetigt (l ++ l') id ↔ Bestaetigt l' id := by
  induction l with
  | nil => rfl
  | cons e l ih =>
      rw [List.cons_append, bestaetigt_cons_of_ne ((h e (.head _)).not_stand id)]
      exact ih fun e he => h e (.tail _ he)

/-- An own stop is left that is not among the confirmed ones. -/
theorem offene_ne_nil {ids freiIds : List String} :
    (ids.dedup.filter fun id => id ∉ freiIds).mergeSort ≠ [] ↔ ∃ id ∈ ids, id ∉ freiIds := by
  rw [← List.isEmpty_eq_false_iff, List.isEmpty_eq_false_iff_exists_mem]
  simp only [List.mem_mergeSort, List.mem_filter, List.mem_dedup, decide_eq_true_eq]

theorem gang_of_yields {l : Verlauf} {r : Freigabe}
    (h : (gibStueckeFrei z runden symbol menge).Yields l r) : Gang z symbol menge l r := by
  obtain ⟨antwort, l, rfl, hl⟩ := h
  cases antwort with
  | none =>
      obtain ⟨rfl, rfl⟩ := hl
      exact .unlesbar
  | some offene =>
      dsimp only at hl
      split at hl
      next hleer =>
        obtain ⟨rfl, rfl⟩ := hl
        refine .nichts fun o ho => ?_
        simpa using List.filter_eq_nil_iff.mp hleer o ho
      next hliegt =>
        have hauf : ∃ o ∈ offene, o.symbol = symbol := by
          by_contra hn
          refine hliegt (List.filter_eq_nil_iff.mpr fun o ho => ?_)
          simpa using fun h => hn ⟨o, ho, h⟩
        obtain ⟨_, ls, l, rfl, hstorno, hl⟩ := yields_bind.mp hl
        obtain ⟨freiIds, lw, l, rfl, hwarte, hl⟩ := yields_bind.mp hl
        have hs := yields_storniereAlle hstorno
        obtain ⟨hw, hb⟩ := yields_schleife hwarte
        have hvor : Vorlauf z symbol offene (ls ++ lw) :=
          ⟨hauf, fun e he => (List.mem_append.mp he).imp (hs e) (hw e)⟩
        have hfrei : ∀ id, id ∈ freiIds ↔ Bestaetigt (ls ++ lw) id := fun id => by
          rw [hb id, bestaetigt_stornos hs]
          simp
        dsimp only at hl
        split at hl
        next hoffen =>
          obtain ⟨rfl, rfl⟩ := hl
          obtain ⟨id, hid, hnot⟩ := offene_ne_nil.mp hoffen
          obtain ⟨o, ho, rfl⟩ := List.mem_map.mp hid
          rw [List.append_nil]
          exact .stornoOffen hvor ⟨o, ho, fun hbest => hnot ((hfrei _).mpr hbest)⟩
        next hweg =>
          have hbest : ∀ o ∈ eigene z symbol offene, Bestaetigt (ls ++ lw) (orderId o) := by
            intro o ho
            by_contra hn
            exact hweg (offene_ne_nil.mpr ⟨orderId o, List.mem_map_of_mem ho,
              fun h => hn ((hfrei _).mp h)⟩)
          obtain ⟨antwort, l, rfl, hende⟩ := hl
          cases antwort with
          | none =>
              obtain ⟨rfl, rfl⟩ := hende
              rw [← List.append_assoc]
              exact .bestandUnlesbar hvor hbest
          | some positionen =>
              obtain ⟨rfl, rfl⟩ := hende
              rw [← List.append_assoc]
              exact .bemessen hvor hbest

/-! ## What a log of a way says -/

theorem Vorlauf.bestaetigt_iff {offene : List LiegendeOrder} {l rest : Verlauf} {id : String}
    (hrest : ∀ e ∈ rest, e.1 = .positionen) :
    Bestaetigt (⟨.offeneOrders, some offene⟩ :: (l ++ rest)) id ↔ Bestaetigt l id := by
  rw [bestaetigt_cons_of_ne (by simp), bestaetigt_append, or_iff_left_iff_imp]
  rintro ⟨status, -, hmem⟩
  cases hrest _ hmem

theorem Vorlauf.ne_offeneOrders {offene : List LiegendeOrder} {l : Verlauf}
    (h : Vorlauf z symbol offene l) {e : Σ i, Antwort i} (he : e ∈ l) : e.1 ≠ .offeneOrders := by
  intro heq
  rcases h.fragen e he with ⟨o, -, ho⟩ | hw
  · cases heq.symm.trans ho
  · rw [heq] at hw
    cases hw

theorem Vorlauf.ne_positionen {offene : List LiegendeOrder} {l : Verlauf}
    (h : Vorlauf z symbol offene l) {e : Σ i, Antwort i} (he : e ∈ l) : e.1 ≠ .positionen := by
  intro heq
  rcases h.fragen e he with ⟨o, -, ho⟩ | hw
  · cases heq.symm.trans ho
  · rw [heq] at hw
    cases hw

/-- The orders that were read, from the log. -/
theorem Vorlauf.offene_eq {offene : List LiegendeOrder} {x : Option (List LiegendeOrder)}
    {l rest : Verlauf} (h : Vorlauf z symbol offene l) (hrest : ∀ e ∈ rest, e.1 = .positionen)
    (hx : (⟨.offeneOrders, x⟩ : Σ i, Antwort i) ∈
      (⟨.offeneOrders, some offene⟩ : Σ i, Antwort i) :: (l ++ rest)) : x = some offene := by
  rcases List.mem_cons.mp hx with heq | hx
  · cases heq
    rfl
  · rcases List.mem_append.mp hx with hx | hx
    · exact absurd rfl (h.ne_offeneOrders hx)
    · cases hrest _ hx

/-- The report of the positions, from the log. -/
theorem Vorlauf.mem_rest {offene : List LiegendeOrder} {x : Option (List Bestand)}
    {l rest : Verlauf} (h : Vorlauf z symbol offene l)
    (hx : (⟨.positionen, x⟩ : Σ i, Antwort i) ∈
      (⟨.offeneOrders, some offene⟩ : Σ i, Antwort i) :: (l ++ rest)) :
    (⟨.positionen, x⟩ : Σ i, Antwort i) ∈ rest := by
  rcases List.mem_cons.mp hx with heq | hx
  · cases heq
  · rcases List.mem_append.mp hx with hx | hx
    · exact absurd rfl (h.ne_positionen hx)
    · exact hx

theorem mem_eigene {offene : List LiegendeOrder} {o : LiegendeOrder} :
    o ∈ eigene z symbol offene ↔ o ∈ offene ∧ o.symbol = symbol ∧ istEigenerStop z o = true := by
  simp [eigene, and_comm]

/-- What is free, as a number of the report. -/
theorem bestandFrei_eq (positionen : List Bestand) (symbol : String) :
    bestandFrei positionen symbol = zahl (gemeldet positionen symbol) := by
  unfold bestandFrei gemeldet
  cases positionen.find? fun p => p.symbol = symbol with
  | none => exact (ExtRat.abs_of_nonneg (ExtRat.of_le_of.mpr le_rfl)).symm
  | some p => rfl

/-! ## The bound -/

/-- What is reported as free, as a number: a field that cannot be read counts for none. -/
def gemeldeteZahl (positionen : List Bestand) (symbol : String) : ExtRat :=
  (gemeldet positionen symbol).getD 0

theorem zahl_eq (x : Option ExtRat) : zahl x = (x.getD 0).abs := by
  cases x with
  | none => exact (ExtRat.abs_of_nonneg (ExtRat.of_le_of.mpr le_rfl)).symm
  | some x => rfl

theorem bemessen_menge (menge frei : ExtRat) (ids : List String) :
    (bemessen menge frei ids).menge = 0 ∨
      (bemessen menge frei ids).menge = ExtRat.pyMin menge.abs frei := by
  unfold bemessen
  dsimp only
  split
  · exact .inl rfl
  · split
    · exact .inr rfl
    · exact .inr rfl

/-- A quantity is bounded by the one asked for and by the free one exactly when neither
is negative or no number. -/
theorem bemessen_le_iff {frei : ExtRat} {ids : List String} :
    ((bemessen menge frei.abs ids).menge ≤ menge ∧ (bemessen menge frei.abs ids).menge ≤ frei) ↔
      0 ≤ menge ∧ 0 ≤ frei := by
  constructor
  · rintro ⟨hm, hf⟩
    have hnan := (ExtRat.ne_nan_of_le hm).1
    have hnull : 0 ≤ (bemessen menge frei.abs ids).menge := by
      rcases bemessen_menge menge frei.abs ids with h | h
      · rw [h]
        exact ExtRat.of_le_of.mpr le_rfl
      · rw [h] at hnan ⊢
        rcases ExtRat.pyMin_cases (x := menge.abs) (y := frei.abs) with h | h
        · rw [h]
          exact ExtRat.abs_nonneg (ExtRat.ne_nan_of_le hm).2
        · rw [h]
          exact ExtRat.abs_nonneg (ExtRat.ne_nan_of_le hf).2
    exact ⟨ExtRat.le_trans hnull hm, ExtRat.le_trans hnull hf⟩
  · rintro ⟨hm, hf⟩
    have hmn := (ExtRat.ne_nan_of_le hm).2
    have hfn := (ExtRat.ne_nan_of_le hf).2
    rcases bemessen_menge menge frei.abs ids with h | h
    · rw [h]
      exact ⟨hm, hf⟩
    · rw [h, ExtRat.abs_of_nonneg hm, ExtRat.abs_of_nonneg hf]
      exact ⟨ExtRat.pyMin_le_left hmn, ExtRat.pyMin_le_right hmn hfn⟩

/-! ## A safe release -/

/-- The end of an own stop was not confirmed, or the positions could not be read. -/
def Gescheitert (z : Ziffern) (symbol : String) (l : Verlauf) : Prop :=
  ∃ offene, (⟨.offeneOrders, some offene⟩ : Σ i, Antwort i) ∈ l ∧
    ((∃ o ∈ offene, o.symbol = symbol ∧ istEigenerStop z o = true ∧ ¬Bestaetigt l (orderId o)) ∨
      (⟨.positionen, none⟩ : Σ i, Antwort i) ∈ l)

/-- An open order on the symbol was read. -/
def Liegt (symbol : String) (l : Verlauf) : Prop :=
  ∃ offene, (⟨.offeneOrders, some offene⟩ : Σ i, Antwort i) ∈ l ∧ ∃ o ∈ offene, o.symbol = symbol

/-- What a release must keep to. -/
structure Sicher (z : Ziffern) (symbol : String) (menge : ExtRat) (l : Verlauf) (r : Freigabe) :
    Prop where
  nurEigene : ∀ e ∈ l, ∀ id s d, e.1 = .storniere id s d →
    ∃ offene, (⟨.offeneOrders, some offene⟩ : Σ i, Antwort i) ∈ l ∧
      ∃ o ∈ offene, o.symbol = symbol ∧ istEigenerStop z o = true ∧ orderId o = id
  nichts : Gescheitert z symbol l → r.menge = 0
  hoechstens : ¬Gescheitert z symbol l → Liegt symbol l →
    ∃ positionen, (⟨.positionen, some positionen⟩ : Σ i, Antwort i) ∈ l ∧
      r.menge ≤ menge ∧ r.menge ≤ gemeldeteZahl positionen symbol

/-- Neither the quantity asked for nor the free one that is reported is negative or no
number. -/
def Nichtnegativ (symbol : String) (menge : ExtRat) (l : Verlauf) : Prop :=
  ∀ positionen, (⟨.positionen, some positionen⟩ : Σ i, Antwort i) ∈ l →
    0 ≤ menge ∧ 0 ≤ gemeldeteZahl positionen symbol

/-- Only own stops of the symbol are cancelled. -/
theorem Vorlauf.nurEigene {offene : List LiegendeOrder} {l rest : Verlauf}
    (h : Vorlauf z symbol offene l) (hrest : ∀ e ∈ rest, e.1 = .positionen) :
    ∀ e ∈ (⟨.offeneOrders, some offene⟩ : Σ i, Antwort i) :: (l ++ rest), ∀ id s d,
      e.1 = .storniere id s d →
      ∃ offene', (⟨.offeneOrders, some offene'⟩ : Σ i, Antwort i) ∈
          (⟨.offeneOrders, some offene⟩ : Σ i, Antwort i) :: (l ++ rest) ∧
        ∃ o ∈ offene', o.symbol = symbol ∧ istEigenerStop z o = true ∧ orderId o = id := by
  intro e he id s d heq
  refine ⟨offene, .head _, ?_⟩
  rcases List.mem_cons.mp he with rfl | he
  · cases heq
  rcases List.mem_append.mp he with he | he
  · rcases h.fragen e he with ⟨o, ho, hstorno⟩ | hw
    · obtain ⟨hmem, hsym, heigen⟩ := mem_eigene.mp ho
      cases heq.symm.trans hstorno
      exact ⟨o, hmem, hsym, heigen, rfl⟩
    · rw [heq] at hw
      cases hw
  · cases heq.symm.trans (hrest e he)

/-- With all own stops confirmed and the positions read, nothing failed. -/
theorem Vorlauf.not_gescheitert {offene : List LiegendeOrder} {l : Verlauf}
    (positionen : List Bestand) (h : Vorlauf z symbol offene l)
    (hbest : ∀ o ∈ eigene z symbol offene, Bestaetigt l (orderId o)) :
    ¬Gescheitert z symbol
      (⟨.offeneOrders, some offene⟩ :: (l ++ [⟨.positionen, some positionen⟩])) := by
  have hrest : ∀ e ∈ [(⟨.positionen, some positionen⟩ : Σ i, Antwort i)], e.1 = .positionen := by
    simp
  rintro ⟨offene', hoff, hgrund⟩
  obtain rfl := Option.some.inj (h.offene_eq hrest hoff)
  rcases hgrund with ⟨o, ho, hsym, heigen, hnot⟩ | hnone
  · exact hnot ((Vorlauf.bestaetigt_iff hrest).mpr (hbest o (mem_eigene.mpr ⟨ho, hsym, heigen⟩)))
  · simpa using h.mem_rest hnone

/-- A way that ends with nothing is safe, and no positions were read. -/
theorem Vorlauf.sicher_null {offene : List LiegendeOrder} {l rest : Verlauf} {r : Freigabe}
    (menge : ExtRat) (h : Vorlauf z symbol offene l) (hrest : ∀ e ∈ rest, e = ⟨.positionen, none⟩)
    (hr : r.menge = 0)
    (hgescheitert : Gescheitert z symbol (⟨.offeneOrders, some offene⟩ :: (l ++ rest))) :
    Sicher z symbol menge (⟨.offeneOrders, some offene⟩ :: (l ++ rest)) r ∧
      Nichtnegativ symbol menge (⟨.offeneOrders, some offene⟩ :: (l ++ rest)) := by
  have hpos : ∀ e ∈ rest, e.1 = .positionen := fun e he => by rw [hrest e he]
  refine ⟨⟨h.nurEigene hpos, fun _ => hr, fun hn => absurd hgescheitert hn⟩, ?_⟩
  intro positionen hmem
  cases hrest _ (h.mem_rest hmem)

/-- A way is safe exactly when the quantities it compares are not negative. -/
theorem Gang.sicher_iff {l : Verlauf} {r : Freigabe} (h : Gang z symbol menge l r) :
    Sicher z symbol menge l r ↔ Nichtnegativ symbol menge l := by
  cases h with
  | unlesbar =>
      have hnicht : ∀ offene, (⟨.offeneOrders, some offene⟩ : Σ i, Antwort i) ∉
          [(⟨.offeneOrders, none⟩ : Σ i, Antwort i)] := by simp
      refine iff_of_true ⟨by simp, ?_, ?_⟩ (by simp [Nichtnegativ])
      · rintro ⟨offene, hmem, -⟩
        exact absurd hmem (hnicht offene)
      · rintro - ⟨offene, hmem, -⟩
        exact absurd hmem (hnicht offene)
  | nichts hleer =>
      refine iff_of_true ⟨by simp, ?_, ?_⟩ (by simp [Nichtnegativ])
      · rintro ⟨offene', hmem, ⟨o, ho, hsym, -⟩ | hnone⟩
        · cases List.mem_singleton.mp hmem
          exact absurd hsym (hleer o ho)
        · cases List.mem_singleton.mp hnone
      · rintro - ⟨offene', hmem, o, ho, hsym⟩
        cases List.mem_singleton.mp hmem
        exact absurd hsym (hleer o ho)
  | @stornoOffen offene l offen ids hvor hoffen =>
      obtain ⟨o, ho, hnot⟩ := hoffen
      obtain ⟨hmem, hsym, heigen⟩ := mem_eigene.mp ho
      have hg : Gescheitert z symbol (⟨.offeneOrders, some offene⟩ :: (l ++ [])) :=
        ⟨offene, .head _, .inl ⟨o, hmem, hsym, heigen, fun hb =>
          hnot ((Vorlauf.bestaetigt_iff (List.forall_mem_nil _)).mp hb)⟩⟩
      have hs := hvor.sicher_null menge (r := ⟨0, some (.stornoOffen offen), ids⟩)
        (List.forall_mem_nil _) rfl hg
      rw [List.append_nil] at hs
      exact iff_of_true hs.1 hs.2
  | @bestandUnlesbar offene l ids hvor hbest =>
      have hg : Gescheitert z symbol
          (⟨.offeneOrders, some offene⟩ :: (l ++ [⟨.positionen, none⟩])) :=
        ⟨offene, .head _, .inr (by simp)⟩
      have hs := hvor.sicher_null menge (r := ⟨0, some .bestandUnlesbar, ids⟩)
        (by simp) rfl hg
      exact iff_of_true hs.1 hs.2
  | @bemessen offene l positionen ids hvor hbest =>
      have hrest : ∀ e ∈ [(⟨.positionen, some positionen⟩ : Σ i, Antwort i)],
          e.1 = .positionen := by simp
      have hread : ∀ ps, (⟨.positionen, some ps⟩ : Σ i, Antwort i) ∈
          (⟨.offeneOrders, some offene⟩ : Σ i, Antwort i) ::
            (l ++ [⟨.positionen, some positionen⟩]) → ps = positionen := fun ps hps => by
        simpa using hvor.mem_rest hps
      have hg := hvor.not_gescheitert positionen hbest
      have hmenge : bestandFrei positionen symbol = (gemeldeteZahl positionen symbol).abs :=
        (bestandFrei_eq positionen symbol).trans (zahl_eq _)
      rw [hmenge]
      constructor
      · intro hs ps hps
        obtain ⟨ps', hps', hle⟩ := hs.hoechstens hg ⟨offene, .head _, hvor.liegt⟩
        obtain rfl := hread ps hps
        obtain rfl := hread ps' hps'
        exact bemessen_le_iff.mp hle
      · intro hn
        refine ⟨hvor.nurEigene hrest, fun h => absurd h hg, fun _ _ => ?_⟩
        exact ⟨positionen, by simp, bemessen_le_iff.mpr (hn positionen (by simp))⟩

/-! ## The release with the answers fixed beforehand -/

/-- An open order as the release of a fixed broker has it. -/
def offeneOrder (z : Ziffern) (o : LiegendeOrder) : Verkauf.OffeneOrder :=
  ⟨orderId o, o.symbol, istEigenerStop z o⟩

def bestand (p : Verkauf.BrokerPosition) : Bestand :=
  ⟨p.symbol, some (.of p.qty), p.qtyAvailable.map fun q => some (.of q)⟩

/-- The same reason, less the ids that are open. -/
inductive GleicherGrund : Option FreigabeGrund → Option Verkauf.FreigabeGrund → Prop where
  | none : GleicherGrund none none
  | stornoOffen {offen} : GleicherGrund (some (.stornoOffen offen)) (some .stornoOffen)
  | bestandUnlesbar : GleicherGrund (some .bestandUnlesbar) (some .bestandUnlesbar)
  | nichtsFrei {q} : GleicherGrund (some (.nichtsFrei (.of q))) (some (.nichtsFrei q))
  | begrenzt {q} : GleicherGrund (some (.begrenzt (.of q))) (some (.begrenzt q))

/-- The same quantity for the same reason. -/
structure Gleich (r : Freigabe) (v : Verkauf.Freigabe) : Prop where
  menge : r.menge = .of v.menge
  grund : GleicherGrund r.grund v.grund

/-- A broker that answers what was answered in a run. -/
structure Antwortet (z : Ziffern) (b : Verkauf.Broker) (l : Verlauf) : Prop where
  orders : ∀ x, (⟨.offeneOrders, x⟩ : Σ i, Antwort i) ∈ l →
    b.getOrders = x.map fun os => os.map (offeneOrder z)
  stornos : ∀ id, b.stornoBestaetigt id = true ↔ Bestaetigt l id
  positionen : ∀ x, (⟨.positionen, x⟩ : Σ i, Antwort i) ∈ l →
    x = b.getAllPositions.map fun ps => ps.map bestand

theorem bestandFrei_bestand (symbol : String) {ps : List Verkauf.BrokerPosition}
    {b : Verkauf.Broker} (h : b.getAllPositions = some ps) :
    ∃ q, Verkauf.bestandFrei b symbol = some q ∧ bestandFrei (ps.map bestand) symbol = .of q := by
  unfold Verkauf.bestandFrei bestandFrei
  rw [h, Option.map_some, List.find?_map]
  have hfun : ((fun p : Bestand => decide (p.symbol = symbol)) ∘ bestand) =
      fun p : Verkauf.BrokerPosition => decide (p.symbol = symbol) := rfl
  rw [hfun]
  cases ps.find? fun p => p.symbol = symbol with
  | none => exact ⟨0, rfl, rfl⟩
  | some p =>
      refine ⟨|p.qtyAvailable.getD p.qty|, rfl, ?_⟩
      show zahl ((p.qtyAvailable.map fun q => some (.of q)).getD (some (.of p.qty))) = _
      cases p.qtyAvailable with
      | none => rfl
      | some q => rfl

/-- The ways of the program are those of the release with fixed answers. -/
theorem Gang.verkauf {q : ℚ} {l : Verlauf} {r : Freigabe} {b : Verkauf.Broker}
    (h : Gang z symbol (.of q) l r) (hb : Antwortet z b l) :
    Gleich r (Verkauf.gibStueckeFrei b symbol q) := by
  have hliegt : ∀ {offene : List LiegendeOrder},
      b.getOrders = some (offene.map (offeneOrder z)) →
      (Verkauf.liegtEtwas b symbol = true ↔ ∃ o ∈ offene, o.symbol = symbol) := by
    intro offene hoff
    simp only [Verkauf.liegtEtwas, hoff, List.any_map, List.any_eq_true]
    exact exists_congr fun o => and_congr_right fun _ => decide_eq_true_iff
  have hweg : ∀ {offene : List LiegendeOrder},
      b.getOrders = some (offene.map (offeneOrder z)) →
      (Verkauf.stopsWeg b symbol = true ↔
        ∀ o ∈ eigene z symbol offene, Bestaetigt l (orderId o)) := by
    intro offene hoff
    simp only [Verkauf.stopsWeg, hoff, List.all_map, List.all_eq_true, mem_eigene]
    refine forall_congr' fun o => ⟨fun h hmem => ?_, fun h ho => ?_⟩
    · have := h hmem.1
      simp only [Function.comp, offeneOrder, hmem.2.1, hmem.2.2] at this
      exact (hb.stornos _).mp (by simpa using this)
    · by_cases heigen : o.symbol = symbol ∧ istEigenerStop z o = true
      · have := (hb.stornos _).mpr (h ⟨ho, heigen⟩)
        simp [offeneOrder, this]
      · simp only [Function.comp, offeneOrder]
        rw [Bool.or_eq_true, Bool.not_eq_true', Bool.and_eq_false_iff]
        exact .inl ((not_and_or.mp heigen).imp decide_eq_false Bool.eq_false_iff.mpr)
  unfold Verkauf.gibStueckeFrei
  cases h with
  | unlesbar =>
      have hleer : Verkauf.liegtEtwas b symbol = false := by
        simp [Verkauf.liegtEtwas, hb.orders none (.head _)]
      rw [hleer]
      exact ⟨rfl, .none⟩
  | @nichts offene hkeine =>
      have hleer : Verkauf.liegtEtwas b symbol = false := by
        rw [← Bool.not_eq_true, hliegt (hb.orders (some offene) (.head _))]
        rintro ⟨o, ho, hsym⟩
        exact hkeine o ho hsym
      rw [hleer]
      exact ⟨rfl, .none⟩
  | @stornoOffen offene l offen ids hvor hoffen =>
      have hoff := hb.orders (some offene) (.head _)
      have hstop : Verkauf.stopsWeg b symbol = false := by
        rw [← Bool.not_eq_true, hweg hoff]
        obtain ⟨o, ho, hnot⟩ := hoffen
        intro hall
        have := hall o ho
        rw [bestaetigt_cons_of_ne (by simp)] at this
        exact hnot this
      rw [(hliegt hoff).mpr hvor.liegt, hstop]
      exact ⟨rfl, .stornoOffen⟩
  | @bestandUnlesbar offene l ids hvor hbest =>
      have hoff := hb.orders (some offene) (.head _)
      have hstop : Verkauf.stopsWeg b symbol = true :=
        (hweg hoff).mpr fun o ho => (Vorlauf.bestaetigt_iff (by simp)).mpr (hbest o ho)
      have hpos : b.getAllPositions = none := by
        simpa using (hb.positionen none (by simp)).symm
      rw [(hliegt hoff).mpr hvor.liegt, hstop]
      simp only [Bool.not_true, Bool.false_eq_true, if_false, Verkauf.bestandFrei, hpos,
        Option.map_none]
      exact ⟨rfl, .bestandUnlesbar⟩
  | @bemessen offene l positionen ids hvor hbest =>
      have hoff := hb.orders (some offene) (.head _)
      have hstop : Verkauf.stopsWeg b symbol = true :=
        (hweg hoff).mpr fun o ho => (Vorlauf.bestaetigt_iff (by simp)).mpr (hbest o ho)
      obtain ⟨ps, hps, rfl⟩ :=
        Option.map_eq_some_iff.mp (hb.positionen (some positionen) (by simp)).symm
      obtain ⟨frei, hfrei, hgleich⟩ := bestandFrei_bestand symbol hps
      rw [(hliegt hoff).mpr hvor.liegt, hstop, hgleich]
      simp only [Bool.not_true, Bool.false_eq_true, if_false, hfrei]
      unfold Stops.bemessen
      simp only [zahl, ExtRat.abs_of, ExtRat.pyMin_of_of, ExtRat.of_lt_of, ExtRat.of_sub_of]
      split
      · exact ⟨rfl, .nichtsFrei⟩
      · split
        · exact ⟨rfl, .begrenzt⟩
        · exact ⟨rfl, .none⟩

/-! ## Every run -/

/-- A release cancels only own stops, comes to nothing where an end is not confirmed or
the positions cannot be read, and is else bounded by what is asked for and what is
reported as free, exactly in the runs in which none of these two is negative or no
number. -/
theorem gibStueckeFrei_sicher_iff {l : Verlauf} {r : Freigabe}
    (h : (gibStueckeFrei z runden symbol menge).Yields l r) :
    Sicher z symbol menge l r ↔ Nichtnegativ symbol menge l :=
  (gang_of_yields h).sicher_iff

end

def stopA : LiegendeOrder :=
  ⟨some "1", "A", some "stop-0-stop-A", 5, 90, "gtc"⟩

/-- A run in which the stop of a symbol is cancelled and so many shares are reported. -/
def stornoLauf (qty : ExtRat) : Verlauf :=
  [⟨.offeneOrders, some [stopA]⟩, ⟨.storniere "1" "A" "stop-0-stop-A", true⟩,
    ⟨.folge ["1"], ⟨["1"], .rfl⟩⟩, ⟨.stand "1", .gemeldet "canceled"⟩,
    ⟨.positionen, some [⟨"A", some qty, some (some qty)⟩]⟩]

theorem yields_stornoLauf (qty : ExtRat) :
    (gibStueckeFrei Idempotenz.asciiZiffern 16 "A" (.of 5)).Yields (stornoLauf qty)
      (bemessen (.of 5) qty.abs ["1"]) := by
  have heigen : eigene Idempotenz.asciiZiffern "A" [stopA] = [stopA] := by decide
  have hende : "canceled" ∈ freiEnde := by decide
  refine ⟨some [stopA], _, rfl, ?_⟩
  show (gibEigeneFrei 16 "A" (.of 5) (eigene Idempotenz.asciiZiffern "A" [stopA])).Yields _ _
  rw [heigen]
  refine yields_bind.mpr ⟨(), [_], _, rfl, ⟨true, [], rfl, rfl, rfl⟩, ?_⟩
  refine yields_bind.mpr ⟨["1"], [_, _], [_], rfl, ⟨⟨["1"], .rfl⟩, [_], rfl, ?_⟩, ?_⟩
  · refine yields_bind.mpr ⟨(false, [], ["1"]), [_], [], rfl, ⟨.gemeldet "canceled", [], rfl, ?_⟩, ?_⟩
    · simp only [if_pos hende]
      exact ⟨rfl, rfl⟩
    · exact ⟨rfl, rfl⟩
  · have hoffen : ¬((([stopA].map orderId).dedup.filter fun id => id ∉ ["1"]).mergeSort ≠ []) := by
      rw [offene_ne_nil]
      decide
    simp only [if_neg hoffen]
    exact ⟨_, [], rfl, rfl, rfl⟩

theorem gibStueckeFrei_sicher_iff_lang :
    Sicher Idempotenz.asciiZiffern "A" (.of 5) (stornoLauf (.of 3))
      (bemessen (.of 5) (.of 3) ["1"]) := by
  refine (gibStueckeFrei_sicher_iff (yields_stornoLauf (.of 3))).mpr fun positionen hmem => ?_
  have hpos : positionen = [⟨"A", some (.of 3), some (some (.of 3))⟩] := by
    simpa [stornoLauf] using hmem
  subst hpos
  exact ⟨by decide, by decide⟩

/-- With five shares sold short, five count as free. -/
theorem gibStueckeFrei_leerverkauft :
    ¬∀ (z : Ziffern) (runden : ℕ) (symbol : String) (menge : ExtRat) (l : Verlauf) (r : Freigabe),
      (gibStueckeFrei z runden symbol menge).Yields l r → Sicher z symbol menge l r := by
  intro h
  have hs := h _ _ _ _ _ _ (yields_stornoLauf (.of (-5)))
  have hn := (gang_of_yields (yields_stornoLauf (.of (-5)))).sicher_iff.mp hs
    [⟨"A", some (.of (-5)), some (some (.of (-5)))⟩] (by simp [stornoLauf])
  exact absurd hn.2 (by decide)

end Stops
