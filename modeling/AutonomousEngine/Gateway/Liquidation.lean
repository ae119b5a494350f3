import AutonomousEngine.Gateway.OrderGateway
import Mathlib.Algebra.Order.BigOperators.Group.List
import Mathlib.Data.Rat.Floor

/-!
# Liquidation

A liquidation closes the held positions one by one through the gateway and keeps
going when one of them fails.  Its report has the number of attempts, the number
of submissions and the failures, and is complete without a failure.

Which positions are attempted, on which side and over how much does not depend on
the gateway.  The side is always a sale, the quantity is the available one where
the broker names it, and a position without a quantity or a symbol is passed
over.  What is ordered of that quantity is up to the caller: the emergency sale
orders whole shares.  So the report says that everything is closed exactly for the
right reason when the positions are long and named, and ordered as a whole
(`Vorgang.Schliesst`), or when an attempt has failed and the report is not complete
at all.
-/

namespace Gateway

open Basis
open Verkauf (IntentKind)
open Idempotenz (Intent)

/-! ## Positions -/

/-- A position with its signed quantity.  What is available lies between zero and
the quantity. -/
structure Position where
  symbol : String
  qty : Rat
  qtyAvailable : Wert
  verfuegbar : ∀ x, qtyAvailable = .zahl x → |x| ≤ |qty|

def Position.menge (p : Position) : Rat :=
  match p.qtyAvailable with
  | .fehlt => |p.qty|
  | .zahl x => |x|
  | .unlesbar => 0

theorem Position.menge_le (p : Position) : p.menge ≤ |p.qty| := by
  unfold menge
  split
  next => exact le_rfl
  next x hx => exact p.verfuegbar x hx
  next => exact abs_nonneg p.qty

theorem Position.menge_nonneg (p : Position) : 0 ≤ p.menge := by
  unfold menge
  split
  next => exact abs_nonneg p.qty
  next x _ => exact abs_nonneg x
  next => exact le_rfl

/-! ## The loop -/

/-- What was attempted, what went through, and what stayed open. -/
structure LiquidationReport where
  attempted : Nat := 0
  submitted : Nat := 0
  failed : List (String × String) := []
deriving DecidableEq, Repr

def LiquidationReport.complete (b : LiquidationReport) : Bool := b.failed.isEmpty

/-- The request that a caller makes for a position: a sale of it, over no more than
what is to be closed. -/
structure RequestFactory where
  request : String → Rat → Auftrag
  symbol : ∀ s q, (request s q).symbol = s
  side : ∀ s q, (request s q).side = .sell
  qty_le : ∀ s q, 0 ≤ q → (request s q).qty ≤ q

/-- The request of the circuit breaker and of a change of strategy: a sale at the
market. -/
def marktVerkauf : RequestFactory where
  request symbol qty := { symbol, side := .sell, qty, form := .mitFeld none }
  symbol _ _ := rfl
  side _ _ := rfl
  qty_le _ _ _ := le_rfl

/-- `int(…)`, which cuts towards zero. -/
def ganze (x : Rat) : Int := x.num.tdiv x.den

theorem ganze_eq_floor {x : Rat} (hx : 0 ≤ x) : ganze x = ⌊x⌋ := by
  rw [ganze, Int.tdiv_eq_ediv_of_nonneg (Rat.num_nonneg.mpr hx), Rat.floor_def']

/-- The request of the emergency sale: whole shares, and a part of one as it is. -/
def panicRequest : RequestFactory where
  request symbol qty :=
    if 1 ≤ ganze qty then { symbol, side := .sell, qty := ganze qty, form := .mitFeld none }
    else { symbol, side := .sell, qty, form := .mitFeld none }
  symbol _ _ := by split <;> rfl
  side _ _ := by split <;> rfl
  qty_le _ q hq := by
    split
    next => rw [ganze_eq_floor hq]; exact Int.floor_le q
    next => exact le_rfl

/-- What a liquidation is called with, besides the positions. -/
structure Vorgang (ε : Type) where
  decisionId : String
  intentKind : IntentKind
  requestFactory : RequestFactory
  halted : Bool
  digest : String → String
  /-- The text of an exception. -/
  text : ε → String
  /-- The text of the error for an intent that does not validate. -/
  ungueltig : String

/-- The intent to close a position, unless it does not validate. -/
def Vorgang.intent {ε : Type} (v : Vorgang ε) (symbol : String) (qty : Rat) : Option Intent :=
  if h : v.decisionId ≠ "" ∧ symbol ≠ "" then
    some { symbol, side := .sell, qty, intentKind := v.intentKind, isProtectiveExit := false
           halted := v.halted, decisionId := v.decisionId
           decisionId_ne := h.1, symbol_ne := h.2 }
  else none

def Position.versucht (p : Position) : Bool := !(p.symbol == "" || decide (p.menge ≤ 0))

section

variable {m : Type → Type} {ε α : Type} [Monad m] [MonadExceptOf ε m]

/-- Submits the sale of a position.  The result is the reason of a failure. -/
def Vorgang.schliesse (v : Vorgang ε) (g : OrderGateway m α) (symbol : String) (qty : Rat) :
    m (Option String) :=
  match v.intent symbol qty with
  | none => return some v.ungueltig
  | some intent =>
      tryCatch
        (do
          let entscheidung ← g.submit v.digest v.text intent (v.requestFactory.request symbol qty) none
          if entscheidung.approved && entscheidung.reasonCode != .systemError then return none
          else return some entscheidung.reasonCode.value)
        fun exc => return some (v.text exc)

/-- Closes every position through the gateway and goes on after a failure. -/
def Vorgang.schleife (v : Vorgang ε) (g : OrderGateway m α) :
    List Position → LiquidationReport → m LiquidationReport
  | [], bericht => return bericht
  | p :: positions, bericht =>
      if !p.versucht then v.schleife g positions bericht
      else do
        match ← v.schliesse g p.symbol p.menge with
        | none =>
            v.schleife g positions
              { bericht with attempted := bericht.attempted + 1, submitted := bericht.submitted + 1 }
        | some grund =>
            v.schleife g positions
              { bericht with
                attempted := bericht.attempted + 1
                failed := bericht.failed ++ [(p.symbol, grund)] }

def Vorgang.liquidatePositions (v : Vorgang ε) (g : OrderGateway m α) (positions : List Position) :
    m LiquidationReport :=
  v.schleife g positions {}

end

/-! ## Orders that close -/

/-- What an order moves. -/
structure Bewegung where
  symbol : String
  side : Verkauf.Action
  qty : Rat
deriving DecidableEq, Repr

/-- The sale that is sent for a position. -/
def Vorgang.verkauf {ε : Type} (v : Vorgang ε) (p : Position) : Bewegung :=
  ⟨p.symbol, .sell, (v.requestFactory.request p.symbol p.menge).qty⟩

/-- The order that closes a position: a sale of a long one, a purchase for a short
one, over the full absolute quantity. -/
def Position.schliessung (p : Position) : Bewegung :=
  ⟨p.symbol, if 0 < p.qty then .sell else .buy, |p.qty|⟩

/-- The orders that the broker has accepted. -/
def angenommen {ε α : Type} (l : Verlauf ε α) : List Bewegung :=
  l.filterMap fun
    | ⟨.submitOrder r, .ok _⟩ => some ⟨r.symbol, r.side, r.qty⟩
    | _ => none

def gehalten (positions : List Position) : List Position := positions.filter fun p => p.qty ≠ 0

def versuchte (positions : List Position) : List Position := positions.filter Position.versucht

/-! ## What the loop does -/

/-- The report and the accepted orders after some positions. -/
structure Stand {ε α : Type} (v : Vorgang ε) (positions : List Position) (b : LiquidationReport)
    (l : Verlauf ε α) : Prop where
  attempted : b.attempted = (versuchte positions).length
  submitted : b.submitted = (angenommen l).length
  summe : b.attempted = b.submitted + b.failed.length
  verkauft : (angenommen l).Sublist ((versuchte positions).map v.verkauf)

section

variable {ε α : Type} {v : Vorgang ε}

theorem Stand.leer : Stand (α := α) v [] {} [] :=
  ⟨rfl, rfl, rfl, .slnil⟩

theorem versuchte_append (ps qs : List Position) :
    versuchte (ps ++ qs) = versuchte ps ++ versuchte qs :=
  List.filter_append _ _

/-- A position that is not attempted changes nothing. -/
theorem Stand.uebergangen {ps : List Position} {p : Position} {b : LiquidationReport}
    {l : Verlauf ε α} (h : Stand v ps b l) (hp : p.versucht = false) : Stand v (ps ++ [p]) b l := by
  have hps : versuchte (ps ++ [p]) = versuchte ps := by
    rw [versuchte_append]
    simp [versuchte, hp]
  exact ⟨hps ▸ h.attempted, h.submitted, h.summe, hps ▸ h.verkauft⟩

theorem Stand.abgesetzt {ps : List Position} {p : Position} {b : LiquidationReport}
    {l l' : Verlauf ε α} (h : Stand v ps b l) (hp : p.versucht = true)
    (hl : angenommen l' = angenommen l ++ [v.verkauf p]) :
    Stand v (ps ++ [p])
      { b with attempted := b.attempted + 1, submitted := b.submitted + 1 } l' := by
  have hps : versuchte (ps ++ [p]) = versuchte ps ++ [p] := by
    rw [versuchte_append]
    simp [versuchte, hp]
  refine ⟨?_, ?_, ?_, ?_⟩
  · simp [hps, h.attempted]
  · simp [hl, h.submitted]
  · have := h.summe
    dsimp only
    omega
  · rw [hps, hl, List.map_append]
    exact h.verkauft.append (List.Sublist.refl _)

theorem Stand.fehlgeschlagen {ps : List Position} {p : Position} {b : LiquidationReport}
    {l l' : Verlauf ε α} {grund : String} (h : Stand v ps b l) (hp : p.versucht = true)
    (hl : angenommen l' = angenommen l) :
    Stand v (ps ++ [p])
      { b with attempted := b.attempted + 1, failed := b.failed ++ [(p.symbol, grund)] } l' := by
  have hps : versuchte (ps ++ [p]) = versuchte ps ++ [p] := by
    rw [versuchte_append]
    simp [versuchte, hp]
  refine ⟨?_, ?_, ?_, ?_⟩
  · simp [hps, h.attempted]
  · simp [hl, h.submitted]
  · have := h.summe
    simp only [List.length_append, List.length_singleton]
    omega
  · rw [hps, hl, List.map_append]
    exact h.verkauft.trans (List.sublist_append_left _ _)

/-- The log protocol without a condition. -/
abbrev frei (ε α : Type) : Protocol Zugriff (Zugriff.Antwort ε α) (Verlauf ε α) :=
  Protocol.logs fun _ => True

variable {l : Verlauf ε α} {E : ε → Verlauf ε α → Prop}

/-- A submission ends with one more accepted order, or with none and a rejection
or an exception. -/
theorem meets_submit {digest : String → String} {text : ε → String} {intent : Intent}
    {request : Auftrag} {Q : ComplianceDecision → Verlauf ε α → Prop}
    (hok : ∀ d l', d.approved = true → d.reasonCode ≠ .systemError →
      angenommen l' = angenommen l ++ [⟨request.symbol, request.side, request.qty⟩] → Q d l')
    (hno : ∀ d l', d.approved = false → angenommen l' = angenommen l → Q d l')
    (hexc : ∀ e l', angenommen l' = angenommen l → E e l') :
    Meets (frei ε α) l ((tor ε α).submit digest text intent request none) Q E := by
  simp only [OrderGateway.submit, meets_bind, meets_submitWithResult, meets_isHalted, meets_pure,
    meets_record, meets_submitOrder]
  intro h
  refine ⟨_, ⟨rfl, trivial⟩, ?_⟩
  split
  next hyes =>
    intro a
    refine ⟨_, ⟨rfl, trivial⟩, ?_⟩
    cases a with
    | ok antwort =>
        intro _
        refine ⟨_, ⟨rfl, trivial⟩, hok _ _ hyes ?_ ?_⟩
        · exact OrderGateway.decide_reasonCode_ne intent h
        · simp [angenommen, Auftrag.mitSchluessel]
    | error exc =>
        intro _
        exact ⟨_, ⟨rfl, trivial⟩, hexc _ _ (by simp [angenommen])⟩
  next hno' =>
    intro _
    exact ⟨_, ⟨rfl, trivial⟩, hno _ _ (by simpa using hno') (by simp [angenommen])⟩

/-- The sale of a position is accepted or fails. -/
theorem meets_schliesse {p : Position} {Q : Option String → Verlauf ε α → Prop}
    (hok : ∀ l', angenommen l' = angenommen l ++ [v.verkauf p] → Q none l')
    (hno : ∀ grund l', angenommen l' = angenommen l → Q (some grund) l') :
    Meets (frei ε α) l (v.schliesse (tor ε α) p.symbol p.menge) Q E := by
  unfold Vorgang.schliesse
  split
  next => exact hno _ _ rfl
  next intent _ =>
    rw [meets_tryCatch, meets_bind]
    refine meets_submit (fun d l' hyes hne hl => ?_) (fun d l' hno' hl => ?_) fun e l' hl => ?_
    · have hcond : (d.approved && d.reasonCode != .systemError) = true := by simp [hyes, hne]
      rw [if_pos hcond]
      rw [v.requestFactory.symbol, v.requestFactory.side] at hl
      exact hok l' hl
    · have hcond : ¬ (d.approved && d.reasonCode != .systemError) = true := by simp [hno']
      rw [if_neg hcond]
      exact hno _ l' hl
    · exact hno _ l' hl

/-- The loop goes through all positions. -/
theorem meets_schleife {ps qs : List Position}
    {b : LiquidationReport} (h : Stand v ps b l) :
    Meets (frei ε α) l (v.schleife (tor ε α) qs b) (fun b' l' => Stand v (ps ++ qs) b' l') E := by
  induction qs generalizing ps b l with
  | nil => simpa [Vorgang.schleife] using h
  | cons p qs ih =>
      have happ : ps ++ p :: qs = (ps ++ [p]) ++ qs := by simp
      rw [happ, Vorgang.schleife]
      split
      next hp => exact ih (h.uebergangen (by simpa using hp))
      next hp =>
        have hp : p.versucht = true := by simpa using hp
        rw [meets_bind]
        refine meets_schliesse (fun l' hl => ?_) fun grund l' hl => ?_
        · exact ih (h.abgesetzt hp hl)
        · exact ih (h.fehlgeschlagen hp hl)

end

/-! ## Completeness -/

section

variable {ε α σ : Type}

def Vorgang.programm (v : Vorgang ε) (positions : List Position) :
    Program Zugriff (Zugriff.Antwort ε α) (Except ε LiquidationReport) :=
  (v.liquidatePositions (tor ε α) positions).run

/-- What the report promises: the numbers add up, and when it is complete every
held position has an accepted order that closes it, each position its own. -/
def Vollstaendig (positions : List Position) (r : Except ε LiquidationReport)
    (l : Verlauf ε α) : Prop :=
  ∃ b, r = .ok b ∧ b.attempted = b.submitted + b.failed.length ∧
    (b.complete = true →
      ((gehalten positions).map Position.schliessung).Subperm (angenommen l))

/-- A position that its sale closes: long, with a symbol, and ordered with all of its
quantity. -/
def Vorgang.Schliesst (v : Vorgang ε) (p : Position) : Prop :=
  0 < p.qty ∧ p.symbol ≠ "" ∧ (v.requestFactory.request p.symbol p.menge).qty = p.qty

variable {v : Vorgang ε}

/-- What is ordered is not over more than is held. -/
theorem Vorgang.verkauf_le (v : Vorgang ε) (p : Position) : (v.verkauf p).qty ≤ |p.qty| :=
  (v.requestFactory.qty_le p.symbol p.menge p.menge_nonneg).trans p.menge_le

theorem Vorgang.Schliesst.versucht {p : Position} (h : v.Schliesst p) : p.versucht = true := by
  obtain ⟨hpos, hsym, hqty⟩ := h
  have hmenge : 0 < p.menge :=
    hpos.trans_le (hqty.ge.trans (v.requestFactory.qty_le p.symbol p.menge p.menge_nonneg))
  simp [Position.versucht, hsym, hmenge]

theorem Vorgang.Schliesst.verkauf {p : Position} (h : v.Schliesst p) :
    v.verkauf p = p.schliessung := by
  obtain ⟨hpos, -, hqty⟩ := h
  simp [Vorgang.verkauf, Position.schliessung, hqty, hpos, abs_of_pos hpos]

theorem schliesst_marktVerkauf_iff (hv : v.requestFactory = marktVerkauf) {p : Position} :
    v.Schliesst p ↔ 0 < p.qty ∧ p.symbol ≠ "" ∧ p.menge = p.qty := by
  rw [Vorgang.Schliesst, hv]
  exact Iff.rfl

/-- The emergency sale closes a position of less than a share, or of whole shares. -/
theorem schliesst_panicRequest_iff (hv : v.requestFactory = panicRequest) {p : Position} :
    v.Schliesst p ↔ 0 < p.qty ∧ p.symbol ≠ "" ∧ p.menge = p.qty ∧
      (p.qty < 1 ∨ ∃ n : Int, p.qty = n) := by
  have hle := v.requestFactory.qty_le p.symbol p.menge p.menge_nonneg
  rw [Vorgang.Schliesst]
  refine and_congr_right fun hpos => and_congr_right fun _ => ?_
  have hmenge := p.menge_le
  rw [abs_of_pos hpos] at hmenge
  rw [hv] at hle ⊢
  simp only [panicRequest, ganze_eq_floor p.menge_nonneg] at hle ⊢
  split
  next hwhole =>
    rw [if_pos hwhole] at hle
    constructor
    · intro hq
      exact ⟨hmenge.antisymm (hq.ge.trans hle), .inr ⟨_, hq.symm⟩⟩
    · rintro ⟨hq, hlt | ⟨n, hn⟩⟩
      · rw [hq, Int.le_floor] at hwhole
        exact absurd (by exact_mod_cast hwhole) (not_le.mpr hlt)
      · dsimp only
        rw [hq, hn, Int.floor_intCast]
  next hwhole =>
    refine ⟨fun hq => ⟨hq, .inl ?_⟩, And.left⟩
    rw [show p.menge = p.qty from hq, not_le, Int.floor_lt] at hwhole
    exact_mod_cast hwhole

theorem Position.qty_ne_of_versucht {p : Position} (h : p.versucht = true) : p.qty ≠ 0 := by
  intro h0
  have hle := p.menge_le
  rw [h0, abs_zero] at hle
  simp [Position.versucht, hle] at h

/-- What is attempted is held. -/
theorem versuchte_sublist (positions : List Position) :
    (versuchte positions).Sublist (gehalten positions) :=
  List.monotone_filter_right positions fun p hp => by simpa using p.qty_ne_of_versucht hp

/-- When nothing has failed, the closing orders are among the sales if and only if
every held position is closed by its sale. -/
theorem subperm_verkauf_iff {positions : List Position} :
    ((gehalten positions).map Position.schliessung).Subperm
        ((versuchte positions).map v.verkauf) ↔
      ∀ p ∈ positions, p.qty ≠ 0 → v.Schliesst p := by
  constructor
  · intro h p hp hqty
    have hlen : (gehalten positions).length ≤ (versuchte positions).length := by
      simpa using h.length_le
    have hgleich : versuchte positions = gehalten positions :=
      (versuchte_sublist positions).eq_of_length_le hlen
    have hperm : ((gehalten positions).map Position.schliessung).Perm
        ((gehalten positions).map v.verkauf) := by
      rw [hgleich] at h
      exact h.perm_of_length_le (by simp)
    have hmem : p ∈ gehalten positions := List.mem_filter.mpr ⟨hp, by simpa using hqty⟩
    have hversucht : p.versucht = true := (List.mem_filter.mp (hgleich ▸ hmem)).2
    have hsym : p.symbol ≠ "" := by
      intro h0
      simp [Position.versucht, h0] at hversucht
    -- every sale is a sale, so no closing order is a purchase
    have hlong : 0 < p.qty := by
      have hin := hperm.subset (List.mem_map_of_mem hmem)
      obtain ⟨p', -, hp'⟩ := List.mem_map.mp hin
      have hside := congrArg Bewegung.side hp'
      by_contra hno
      simp [Vorgang.verkauf, Position.schliessung, hno] at hside
    -- the quantities have the same sum, and none of the sales is over more
    have hsum : ((gehalten positions).map fun p => |p.qty|).sum =
        ((gehalten positions).map fun p => (v.verkauf p).qty).sum := by
      have hq := (hperm.map Bewegung.qty).sum_eq
      simpa [Function.comp_def, Position.schliessung] using hq
    refine ⟨hlong, hsym, ?_⟩
    by_contra hne
    have hlt : (v.verkauf p).qty < |p.qty| :=
      lt_of_le_of_ne (v.verkauf_le p) (by rwa [abs_of_pos hlong])
    have hsumlt : ((gehalten positions).map fun p => (v.verkauf p).qty).sum <
        ((gehalten positions).map fun p => |p.qty|).sum :=
      List.sum_lt_sum _ _ (fun q _ => v.verkauf_le q) ⟨p, hmem, hlt⟩
    exact absurd hsum hsumlt.ne'
  · intro h
    have hgleich : versuchte positions = gehalten positions := by
      refine List.filter_congr fun p hp => ?_
      by_cases hqty : p.qty = 0
      · have hno : p.versucht ≠ true := fun hv => p.qty_ne_of_versucht hv hqty
        simpa [hqty] using hno
      · simpa [hqty] using (h p hp hqty).versucht
    rw [hgleich]
    have hmap : (gehalten positions).map Position.schliessung =
        (gehalten positions).map v.verkauf := by
      refine List.map_congr_left fun p hp => ?_
      obtain ⟨hin, hqty⟩ := List.mem_filter.mp hp
      exact (h p hin (by simpa using hqty)).verkauf.symm
    rw [hmap]

/-- In every run of a liquidation, over a world that answers in any way: the report
keeps its promise if and only if a sale that was attempted did not go through, or
every held position is long, has a symbol, and is ordered with its whole quantity. -/
theorem liquidation_vollstaendig_iff {v : Vorgang ε} {positions : List Position}
    {W : World σ Zugriff (Zugriff.Antwort ε α)} {init : σ → Prop}
    {s : σ} {l : Verlauf ε α} {r : Except ε LiquidationReport}
    (h : (W.run init (v.programm positions)).Reach ⟨s, l, .done r⟩) :
    Vollstaendig positions r l ↔
      (angenommen l).length < (versuchte positions).length ∨
        ∀ p ∈ positions, p.qty ≠ 0 → v.Schliesst p := by
  have hfol : (v.programm (α := α) positions).Follows (frei ε α)
      (fun r l => ∃ b, r = .ok b ∧ Stand v positions b l) [] := by
    have hloop : Meets (frei ε α) [] (v.schleife (tor ε α) positions {})
        (fun b l => Stand v ([] ++ positions) b l) fun _ _ => False :=
      meets_schleife Stand.leer
    rw [Vorgang.programm, follows_run]
    exact hloop.mono (fun b l hb => ⟨b, rfl, hb⟩) fun _ _ he => he.elim
  obtain ⟨l', rfl, b, rfl, hb⟩ := World.sound (I := fun l' _ l => l' = l)
    (fun _ _ => rfl) (fun hI _ => hI) (fun hI hN _ _ => hI ▸ hN.1) hfol
    (World.reach_unconditional h)
  have hlen : (angenommen l').length ≤ (versuchte positions).length := by
    simpa using hb.verkauft.length_le
  have hattempted := hb.attempted
  have hsubmitted := hb.submitted
  have hsumme := hb.summe
  constructor
  · intro ⟨b', hb', _, hvoll⟩
    obtain rfl := Except.ok.inj hb'
    by_cases hlt : (angenommen l').length < (versuchte positions).length
    · exact .inl hlt
    · have hleer : b.failed = [] := List.length_eq_zero_iff.mp (by omega)
      have hgleich : angenommen l' = (versuchte positions).map v.verkauf :=
        hb.verkauft.eq_of_length_le (by simpa using hlt)
      have hsub := hvoll (by simp [LiquidationReport.complete, hleer])
      exact .inr (subperm_verkauf_iff.mp (hgleich ▸ hsub))
  · intro h
    refine ⟨b, rfl, hsumme, fun hcomplete => ?_⟩
    have hleer : b.failed = [] := by simpa [LiquidationReport.complete] using hcomplete
    have hvoll : b.failed.length = 0 := by simp [hleer]
    rcases h with hlt | hgut
    · omega
    · have hgleich : angenommen l' = (versuchte positions).map v.verkauf :=
        hb.verkauft.eq_of_length_le (by rw [List.length_map]; omega)
      rw [hgleich]
      exact subperm_verkauf_iff.mpr hgut

end

/-! ## Liquidations of one position -/

def panicVorgang : Vorgang String where
  decisionId := "panic-1"
  intentKind := .panic
  requestFactory := panicRequest
  halted := true
  digest := id
  text := id
  ungueltig := ""

/-- The intent it closes a position with. -/
def panicIntent (p : Position) (h : p.symbol ≠ "") : Intent :=
  { symbol := p.symbol, side := .sell, qty := p.menge, intentKind := .panic
    isProtectiveExit := false, halted := true, decisionId := "panic-1"
    decisionId_ne := by simp, symbol_ne := h }

/-- The log when the broker accepts the sale. -/
def panicVerlauf (p : Position) (h : p.symbol ≠ "") : Verlauf String Unit :=
  [⟨.isHalted, true⟩,
    ⟨.submitOrder ((panicRequest.request p.symbol p.menge).mitSchluessel id (panicIntent p h)),
      .ok ()⟩,
    ⟨.record (OrderGateway.decide (panicIntent p h) none true) (panicIntent p h), ()⟩]

def panicEinzeln (p : Position) (h : p.symbol ≠ "") :
    Raising Zugriff (Zugriff.Antwort String Unit) String LiquidationReport := do
  match ← tryCatch
      (do
        let entscheidung ← (tor String Unit).submit id id (panicIntent p h)
          (panicRequest.request p.symbol p.menge) none
        if entscheidung.approved && entscheidung.reasonCode != .systemError then return none
        else return some entscheidung.reasonCode.value)
      fun exc => return some exc with
  | none => return { attempted := 1, submitted := 1 }
  | some grund => return { attempted := 1, failed := [(p.symbol, grund)] }

theorem programm_einzeln {p : Position} (h : p.symbol ≠ "") (hp : p.versucht = true) :
    panicVorgang.programm [p] = (panicEinzeln p h).run := by
  have hintent : panicVorgang.intent p.symbol p.menge = some (panicIntent p h) :=
    dif_pos ⟨by simp [panicVorgang], h⟩
  simp only [Vorgang.programm, Vorgang.liquidatePositions, Vorgang.schleife, hp, Bool.not_true,
    Bool.false_eq_true, if_false, Vorgang.schliesse, hintent]
  rfl

theorem panic_reach {p : Position} (h : p.symbol ≠ "") (hp : p.versucht = true) :
    ((beliebig String Unit).run (fun _ => True) (panicVorgang.programm [p])).Reach
      ⟨(), panicVerlauf p h, .done (.ok { attempted := 1, submitted := 1 })⟩ := by
  rw [programm_einzeln h hp]
  have h0 : (((beliebig String Unit).run (fun _ => True) (panicEinzeln p h).run).restrict
      (World.answers fun _ _ _ _ => True)).Reach ⟨(), [], (panicEinzeln p h).run⟩ :=
    .start ⟨trivial, rfl, rfl⟩
  have h1 := World.reach_answer h0 rfl (beliebig_answer true) trivial
  have h2 := World.reach_answer h1 rfl (beliebig_answer (i := .submitOrder _) (Except.ok ())) trivial
  have h3 := World.reach_answer h2 rfl (beliebig_answer (i := .record _ _) ()) trivial
  exact h3.of_restrict

/-- A position of which nothing is bound in other orders. -/
def freiePosition (symbol : String) (qty : Rat) : Position where
  symbol
  qty
  qtyAvailable := .fehlt
  verfuegbar := fun _ h => nomatch h

theorem freiePosition_menge (symbol : String) (qty : Rat) :
    (freiePosition symbol qty).menge = |qty| := rfl

theorem freiePosition_versucht {qty : Rat} (h : qty ≠ 0) :
    (freiePosition "TSLA" qty).versucht = true := by
  rw [Position.versucht, freiePosition_menge]
  simp [freiePosition, h]

/-- The only order that is accepted for a single position is its sale. -/
theorem angenommen_panicVerlauf (p : Position) (h : p.symbol ≠ "") :
    angenommen (panicVerlauf p h) = [panicVorgang.verkauf p] := by
  have hsym := panicRequest.symbol p.symbol p.menge
  have hside := panicRequest.side p.symbol p.menge
  simp [angenommen, panicVerlauf, Auftrag.mitSchluessel, Vorgang.verkauf, panicVorgang, hsym, hside]

/-- Ten shares are sold as a whole. -/
theorem liquidation_vollstaendig_iff_lang :
    Vollstaendig [freiePosition "TSLA" 10]
      (.ok { attempted := 1, submitted := 1 } : Except String _)
      (panicVerlauf (freiePosition "TSLA" 10) (by decide)) :=
  (liquidation_vollstaendig_iff (panic_reach (by decide) (freiePosition_versucht (by norm_num)))).mpr
    (.inr fun _ hp _ => List.mem_singleton.mp hp ▸ (schliesst_panicRequest_iff rfl).mpr
      ⟨by norm_num [freiePosition], by decide, (freiePosition_menge _ _).trans (abs_of_pos (by norm_num)),
        .inr ⟨10, by norm_num [freiePosition]⟩⟩)

/-- Where the sale is not what closes the position, the report is complete nevertheless. -/
theorem panic_unvollstaendig {qty : Rat} (h : qty ≠ 0)
    (hno : panicVorgang.verkauf (freiePosition "TSLA" qty) ≠ (freiePosition "TSLA" qty).schliessung) :
    ∃ r l, ((beliebig String Unit).run (fun _ => True)
        (panicVorgang.programm [freiePosition "TSLA" qty])).Reach ⟨(), l, .done r⟩ ∧
      ¬ Vollstaendig [freiePosition "TSLA" qty] r l := by
  have hsym : (freiePosition "TSLA" qty).symbol ≠ "" := by simp [freiePosition]
  refine ⟨_, _, panic_reach hsym (freiePosition_versucht h), ?_⟩
  rintro ⟨b, hb, -, hvoll⟩
  obtain rfl := Except.ok.inj hb
  have hin : (freiePosition "TSLA" qty).schliessung ∈ angenommen (panicVerlauf _ hsym) :=
    (hvoll rfl).subset (List.mem_map_of_mem (List.mem_filter.mpr
      ⟨List.mem_singleton.mpr rfl, by simp [freiePosition, h]⟩))
  rw [angenommen_panicVerlauf, List.mem_singleton] at hin
  exact hno hin.symm

/-- A short position is sold once more, and of ten and a half shares ten are sold. -/
theorem liquidation_unvollstaendig :
    (∃ r l, ((beliebig String Unit).run (fun _ => True)
        (panicVorgang.programm [freiePosition "TSLA" (-10)])).Reach ⟨(), l, .done r⟩ ∧
      ¬ Vollstaendig [freiePosition "TSLA" (-10)] r l) ∧
    ∃ r l, ((beliebig String Unit).run (fun _ => True)
        (panicVorgang.programm [freiePosition "TSLA" (21 / 2)])).Reach ⟨(), l, .done r⟩ ∧
      ¬ Vollstaendig [freiePosition "TSLA" (21 / 2)] r l := by
  constructor
  · refine panic_unvollstaendig (by norm_num) fun h => ?_
    have hside := congrArg Bewegung.side h
    norm_num [Position.schliessung, Vorgang.verkauf, freiePosition] at hside
    cases hside
  · refine panic_unvollstaendig (by norm_num) fun h => ?_
    have hfloor : ⌊(21 / 2 : Rat)⌋ = 10 := by norm_num
    have hqty := congrArg Bewegung.qty h
    rw [Vorgang.verkauf, Position.schliessung, freiePosition_menge, abs_of_pos (by norm_num)] at hqty
    simp only [panicVorgang, panicRequest, ganze_eq_floor (by norm_num : (0 : Rat) ≤ 21 / 2),
      hfloor] at hqty
    norm_num [freiePosition] at hqty

end Gateway
