import AutonomousEngine.Basis.Text
import AutonomousEngine.Tor.Mandanten
import AutonomousEngine.Verkauf.Freigabe

/-!
# Client order ids

The key of an order at the broker is derived from the decision behind it, as
`<leg>-<attempt>-<body>`.  The body is the decision itself where it is made of
letters, digits and hyphens and leaves the key short enough, and else a hyphen-free
digest of it behind an underscore.  `nextAttempt` counts the attempt of such a
key up and keeps its body.  A key of another form gets a digest of its own.

The digest is a parameter, and so are the characters that count as decimal
digits, since the pattern for the attempt accepts those of every script.
-/

namespace Idempotenz

open Basis
open Verkauf (IntentKind)

/-- Length of the longest key the broker takes. -/
def maxClientOrderIdLen : Nat := 128

def legText : IntentKind → String
  | .entry => "entry"
  | .stop => "stop"
  | .trim => "trim"
  | .displacement => "displacement"
  | .panic => "panic"
  | .breaker => "breaker"
  | .strategySwitch => "strategy_switch"

def legs : List String :=
  [.entry, .stop, .trim, .displacement, .panic, .breaker, .strategySwitch].map legText

theorem legText_mem_legs (kind : IntentKind) : legText kind ∈ legs := by
  cases kind <;> decide

def gekappt (n : Nat) (s : String) : String :=
  String.ofList (s.toList.take n)

/-! ## Deriving a key -/

/-- Why no key is derived. -/
inductive SchluesselFehler where
  | leereDecisionId
  | unbekanntesLeg (leg : String)
  | negativerVersuch (attempt : Int)
  | leererClientOrderId
  | leereApprovalId
deriving DecidableEq, Repr

/-- The body of a key: the decision with a hyphen for every other character. -/
def rumpf (decisionId : String) : String :=
  String.ofList (decisionId.toList.map fun c => if Tor.erlaubt c then c else '-')

def kopf (leg : String) (attempt : Int) : String :=
  leg ++ "-" ++ toString attempt ++ "-"

section

variable (digest : String → String)

/-- Derives the key of an order from its decision. -/
def deriveClientOrderId (decisionId leg : String) (attempt : Int) :
    Except SchluesselFehler String :=
  if decisionId = "" then .error .leereDecisionId
  else if leg ∉ legs then .error (.unbekanntesLeg leg)
  else if attempt < 0 then .error (.negativerVersuch attempt)
  else if rumpf decisionId = decisionId ∧
      (kopf leg attempt).length + (rumpf decisionId).length ≤ maxClientOrderIdLen then
    .ok (kopf leg attempt ++ rumpf decisionId)
  else .ok (kopf leg attempt ++ "_" ++ digest decisionId)

/-- Derives the key of an approved order. -/
def deriveApprovalClientOrderId (approvalId : String) : Except SchluesselFehler String :=
  if approvalId = "" then .error .leereApprovalId
  else .ok (gekappt maxClientOrderIdLen ("hitl-" ++ approvalId))

end

/-! ## Reading a key -/

/-- The decimal digits of all scripts with their values.  The digits of ASCII
have their own, and nothing else in ASCII has one. -/
structure Ziffern where
  wert : Char → Option Nat
  ascii : ∀ c : Char, c.toNat < 128 →
    wert c = if c.isDigit then some (c.toNat - '0'.toNat) else none

def asciiZiffern : Ziffern where
  wert c := if c.isDigit then some (c.toNat - '0'.toNat) else none
  ascii _ _ := rfl

/-- The number a text of digits stands for. -/
def Ziffern.zahl (z : Ziffern) (cs : List Char) : Nat :=
  cs.foldl (fun n c => 10 * n + (z.wert c).getD 0) 0

/-- A text without a line break at its end. -/
def ohneZeilenende (cs : List Char) : List Char :=
  if cs.getLast? = some '\n' then cs.dropLast else cs

def legZeichen (c : Char) : Bool :=
  'a' ≤ c && c ≤ 'z' || c == '_'

/-- Takes a key of the form `<leg>-<attempt>-<body>` apart. -/
def strukturiert (z : Ziffern) (key : String) : Option (String × Nat × String) :=
  match splitAtMost '-' 2 key.toList with
  | [leg, attempt, rest] =>
      let rest := ohneZeilenende rest
      if !leg.isEmpty && leg.all legZeichen && !attempt.isEmpty &&
          attempt.all (fun c => (z.wert c).isSome) && !rest.isEmpty && !rest.contains '\n' then
        some (String.ofList leg, z.zahl attempt, String.ofList rest)
      else none
  | _ => none

/-- The decision a key was derived from, where the key carries it. -/
def decisionIdAus (z : Ziffern) (key : String) : Option String :=
  match strukturiert z key with
  | none => none
  | some (leg, _, rest) =>
      if leg ∉ legs then none
      else if rest.toList.head? = some '_' ∧ rest.length = 33 then none
      else some rest

/-- The key of the next attempt of the same leg. -/
def nextAttempt (digest : String → String) (z : Ziffern) (key : String) :
    Except SchluesselFehler String :=
  if key = "" then .error .leererClientOrderId
  else
    match strukturiert z key with
    | some (leg, attempt, rest) =>
        if leg ∈ legs then
          .ok (gekappt maxClientOrderIdLen (kopf leg (attempt + 1 : Nat) ++ rest))
        else .ok ("retry-1-_" ++ digest key)
    | none => .ok ("retry-1-_" ++ digest key)

/-! ## The key at the gateway -/

/-- An order intent with its decision, as the contract admits it. -/
structure Intent extends Verkauf.OrderIntent where
  decisionId : String
  decisionId_ne : decisionId ≠ ""
  symbol_ne : symbol ≠ ""

/-- Whether a decision id only stands in for a missing one. -/
def istErsatz (decisionId : String) : Bool :=
  "ersatz-".toList.isPrefixOf decisionId.toList

/-- A request: the form without a field for the key, and the one with it. -/
inductive Request where
  | ohneFeld
  | mitFeld (clientOrderId : Option String)
deriving DecidableEq, Repr

def Request.clientOrderId : Request → Option String
  | .ohneFeld => none
  | .mitFeld k => k

/-- Gives a request a key, unless it has one or its decision is no real one. -/
def mitSchluessel (digest : String → String) (intent : Intent) : Request → Request
  | .ohneFeld => .ohneFeld
  | .mitFeld vorhanden =>
      if vorhanden.any (· ≠ "") then .mitFeld vorhanden
      else if istErsatz intent.decisionId then .mitFeld vorhanden
      else
        match deriveClientOrderId digest (intent.decisionId ++ "-" ++ intent.symbol)
            (legText intent.intentKind) 0 with
        | .ok schluessel => .mitFeld (some schluessel)
        | .error _ => .mitFeld vorhanden

/-! ## The parts of a key -/

theorem hyphen_notMem_of_mem_legs {leg : String} (h : leg ∈ legs) : '-' ∉ leg.toList := by
  simp only [legs, List.map_cons, List.map_nil, List.mem_cons, List.not_mem_nil, or_false] at h
  rcases h with rfl | rfl | rfl | rfl | rfl | rfl | rfl <;> decide

theorem toString_ofNat_isDigit (n : Nat) : ∀ c ∈ (toString (n : Int)).toList, c.isDigit = true := by
  intro c hc
  have hrepr : (toString (n : Int)).toList = Nat.toDigits 10 n := Nat.toList_repr
  exact Nat.isDigit_of_mem_toDigits (by decide) (by decide) (hrepr ▸ hc)

theorem toString_ofNat_ne_empty (n : Nat) : toString (n : Int) ≠ "" := by
  intro h
  have hrepr : (toString (n : Int)).toList = Nat.toDigits 10 n := Nat.toList_repr
  rw [h] at hrepr
  exact Nat.toDigits_ne_nil hrepr.symm

theorem hyphen_notMem_toString (n : Nat) : '-' ∉ (toString (n : Int)).toList := by
  intro h
  exact absurd (toString_ofNat_isDigit n '-' h) (by decide)

@[simp] theorem kopf_toList (leg : String) (n : Int) :
    (kopf leg n).toList = leg.toList ++ '-' :: ((toString n).toList ++ ['-']) := by
  simp [kopf]

/-! ## Reading what was derived -/

theorem legs_legZeichen {leg : String} (h : leg ∈ legs) :
    leg.toList ≠ [] ∧ leg.toList.all legZeichen = true := by
  simp only [legs, List.map_cons, List.map_nil, List.mem_cons, List.not_mem_nil, or_false] at h
  rcases h with rfl | rfl | rfl | rfl | rfl | rfl | rfl <;> decide

theorem Ziffern.isSome_of_isDigit (z : Ziffern) {c : Char} (h : c.isDigit = true) :
    (z.wert c).isSome = true := by
  have hc : c.toNat < 128 := by
    simp only [Char.isDigit, Bool.and_eq_true, decide_eq_true_eq, UInt32.le_iff_toNat_le] at h
    exact Nat.lt_of_le_of_lt h.2 (by decide)
  simp [z.ascii c hc, h]

/-- A text without line breaks has none at its end. -/
theorem ohneZeilenende_of_notMem {cs : List Char} (h : '\n' ∉ cs) : ohneZeilenende cs = cs :=
  if_neg fun hl => h (List.mem_of_getLast? hl)

/-- A key behind a head is of the form of a derived one. -/
theorem strukturiert_kopf (z : Ziffern) {leg : String} (hleg : leg ∈ legs) (n : Nat) {rest : String}
    (hne : rest ≠ "") (hrest : '\n' ∉ rest.toList) :
    strukturiert z (kopf leg n ++ rest) =
      some (leg, z.zahl (toString (n : Int)).toList, rest) := by
  have hsplit : splitAtMost '-' 2 (kopf leg n ++ rest).toList =
      [leg.toList, (toString (n : Int)).toList, rest.toList] := by
    refine splitAtMost_two_eq_iff.mpr
      ⟨hyphen_notMem_of_mem_legs hleg, hyphen_notMem_toString n, ?_⟩
    simp
  have hziffern : (toString (n : Int)).toList.all (fun c => (z.wert c).isSome) = true :=
    List.all_eq_true.mpr fun c hc => z.isSome_of_isDigit (toString_ofNat_isDigit n c hc)
  have hnummer : (n : Int).repr ≠ "" := toString_ofNat_ne_empty n
  obtain ⟨hleer, hall⟩ := legs_legZeichen hleg
  have hvoll : rest.toList ≠ [] := by simpa using hne
  simp only [strukturiert, hsplit, ohneZeilenende_of_notMem hrest, hall, hziffern]
  simp [hleer, hnummer, hvoll, hrest]

theorem erlaubt_of_mem_rumpf {decisionId : String} {c : Char} (h : c ∈ (rumpf decisionId).toList) :
    Tor.erlaubt c = true := by
  rw [rumpf, String.toList_ofList] at h
  obtain ⟨d, -, rfl⟩ := List.mem_map.mp h
  split
  next he => exact he
  next => decide

/-- The decision is read from a derived key when the key has it literally, and
nothing is read from a digest. -/
theorem decisionIdAus_deriveClientOrderId {digest : String → String}
    (hdigest : ∀ s, (digest s).length = 32 ∧ '\n' ∉ (digest s).toList) (z : Ziffern)
    {decisionId leg key : String} {attempt : Int}
    (h : deriveClientOrderId digest decisionId leg attempt = .ok key) :
    decisionIdAus z key =
      if rumpf decisionId = decisionId ∧
          (kopf leg attempt).length + (rumpf decisionId).length ≤ maxClientOrderIdLen then
        some decisionId
      else none := by
  unfold deriveClientOrderId at h
  split at h
  next => cases h
  next hne =>
    split at h
    next => cases h
    next hleg =>
      rw [not_not] at hleg
      split at h
      next => cases h
      next hpos =>
        obtain ⟨n, rfl⟩ := Int.eq_ofNat_of_zero_le (not_lt.mp hpos)
        split at h
        next hrumpf =>
          obtain rfl : kopf leg n ++ rumpf decisionId = key := by simpa using h
          have hzeile : '\n' ∉ (rumpf decisionId).toList := fun hm =>
            absurd (erlaubt_of_mem_rumpf hm) (by decide)
          have hmarke : (rumpf decisionId).toList.head? ≠ some '_' := fun hm =>
            absurd (erlaubt_of_mem_rumpf (List.mem_of_head? hm)) (by decide)
          rw [decisionIdAus, strukturiert_kopf z hleg n (by rwa [hrumpf.1]) hzeile, if_pos hrumpf]
          rw [hrumpf.1] at hmarke ⊢
          simp [hleg, hmarke]
        next hrumpf =>
          obtain rfl : kopf leg n ++ ("_" ++ digest decisionId) = key := by
            simpa [String.append_assoc] using h
          have hzeile : '\n' ∉ ("_" ++ digest decisionId).toList := by
            simpa using (hdigest decisionId).2
          have hlaenge : ("_" ++ digest decisionId).length = 33 := by
            rw [String.length_append, (hdigest decisionId).1]
            rfl
          rw [decisionIdAus, strukturiert_kopf z hleg n (by simp) hzeile, if_neg hrumpf]
          simp [hleg, hlaenge]

end Idempotenz
