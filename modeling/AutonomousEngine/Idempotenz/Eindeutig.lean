import AutonomousEngine.Idempotenz.Schluessel

/-!
# Keys are unique

A key is a leg, an attempt and a body, with hyphens between them.  Neither a leg
nor a number has a hyphen, so the parts can be read off the key again
(`kopf_append_inj`).  A literal body has no underscore and a digest form begins
with one, so the two forms are disjoint, and a body determines its decision up to
a collision of the digest (`koerper_inj`).

A digest is thirty-two characters long and cannot be injective.  What is assumed
of it is that the decisions at hand do not collide.
-/

namespace Idempotenz

/-! ## Numbers in keys -/

theorem toString_toList (n : Nat) : (toString (n : Int)).toList = Nat.toDigits 10 n :=
  Nat.toList_repr

theorem toString_ofNat_inj {n m : Nat}
    (h : (toString (n : Int)).toList = (toString (m : Int)).toList) : n = m := by
  rw [toString_toList, toString_toList] at h
  calc
    n = Nat.ofDigitChars 10 (Nat.toDigits 10 n) 0 := Nat.ofDigitChars_ten_toDigits.symm
    _ = Nat.ofDigitChars 10 (Nat.toDigits 10 m) 0 := by rw [h]
    _ = m := Nat.ofDigitChars_ten_toDigits

theorem Ziffern.zahl_toString (z : Ziffern) (n : Nat) : z.zahl (toString (n : Int)).toList = n := by
  have hziffern : ∀ (cs : List Char) (m : Nat), (∀ c ∈ cs, c.isDigit = true) →
      cs.foldl (fun n c => 10 * n + (z.wert c).getD 0) m = Nat.ofDigitChars 10 cs m := by
    intro cs
    induction cs with
    | nil => exact fun _ _ => rfl
    | cons c cs ih =>
        intro m hcs
        have hc : c.isDigit = true := hcs c List.mem_cons_self
        have hascii : c.toNat < 128 := by
          simp only [Char.isDigit, Bool.and_eq_true, decide_eq_true_eq,
            UInt32.le_iff_toNat_le] at hc
          exact Nat.lt_of_le_of_lt hc.2 (by decide)
        rw [Nat.ofDigitChars_cons, ← ih _ fun d hd => hcs d (List.mem_cons_of_mem c hd)]
        simp [z.ascii c hascii, hc]
  rw [Ziffern.zahl, hziffern _ 0 (toString_ofNat_isDigit n), toString_toList]
  exact Nat.ofDigitChars_ten_toDigits

/-! ## The parts of a key -/

/-- A leg, an attempt and a body make one key only. -/
theorem kopf_append_inj {leg leg' : String} (hleg : leg ∈ legs) (hleg' : leg' ∈ legs) {n n' : Nat}
    {rest rest' : String} (h : kopf leg n ++ rest = kopf leg' n' ++ rest') :
    leg = leg' ∧ n = n' ∧ rest = rest' := by
  have hlist : leg.toList ++ '-' :: ((toString (n : Int)).toList ++ '-' :: rest.toList) =
      leg'.toList ++ '-' :: ((toString (n' : Int)).toList ++ '-' :: rest'.toList) := by
    simpa using congrArg String.toList h
  obtain ⟨hl, hrest⟩ := Basis.append_cons_inj_of_notMem_left (hyphen_notMem_of_mem_legs hleg)
    (hyphen_notMem_of_mem_legs hleg') hlist
  obtain ⟨hn, hr⟩ := Basis.append_cons_inj_of_notMem_left (hyphen_notMem_toString n)
    (hyphen_notMem_toString n') hrest
  exact ⟨String.toList_inj.mp hl, toString_ofNat_inj hn, String.toList_inj.mp hr⟩

/-- What the digest is: thirty-two hexadecimal digits. -/
def IstHex (s : String) : Prop :=
  s.length = 32 ∧ ∀ c ∈ s.toList, c.isDigit = true ∨ 'a' ≤ c ∧ c ≤ 'f'

theorem IstHex.zeile {s : String} (h : IstHex s) : '\n' ∉ s.toList := by
  intro hm
  rcases h.2 '\n' hm with hd | ⟨ha, -⟩
  · exact absurd hd (by decide)
  · exact absurd ha (by decide)

section

variable (digest : String → String)

/-- Whether a decision stands in its key literally. -/
def Woertlich (decisionId leg : String) (n : Nat) : Prop :=
  rumpf decisionId = decisionId ∧
    (kopf leg n).length + (rumpf decisionId).length ≤ maxClientOrderIdLen

instance (decisionId leg : String) (n : Nat) : Decidable (Woertlich decisionId leg n) :=
  inferInstanceAs (Decidable (_ ∧ _))

def koerper (decisionId leg : String) (n : Nat) : String :=
  if Woertlich decisionId leg n then decisionId else "_" ++ digest decisionId

variable {digest}

theorem koerper_of_woertlich {decisionId leg : String} {n : Nat} (h : Woertlich decisionId leg n) :
    koerper digest decisionId leg n = decisionId :=
  if_pos h

theorem koerper_of_not_woertlich {decisionId leg : String} {n : Nat}
    (h : ¬Woertlich decisionId leg n) :
    koerper digest decisionId leg n = "_" ++ digest decisionId :=
  if_neg h

/-- A decision, a leg and an attempt have a key, and it has these parts. -/
theorem deriveClientOrderId_eq_ok_iff {decisionId leg key : String} {attempt : Int} :
    deriveClientOrderId digest decisionId leg attempt = .ok key ↔
      decisionId ≠ "" ∧ leg ∈ legs ∧ ∃ n : Nat, attempt = n ∧
        key = kopf leg n ++ koerper digest decisionId leg n := by
  constructor
  · intro h
    unfold deriveClientOrderId at h
    split at h
    next => cases h
    next hne =>
      split at h
      next => cases h
      next hleg =>
        split at h
        next => cases h
        next hpos =>
          obtain ⟨n, rfl⟩ := Int.eq_ofNat_of_zero_le (not_lt.mp hpos)
          refine ⟨hne, not_not.mp hleg, n, rfl, ?_⟩
          split at h
          next hlit =>
            rw [koerper_of_woertlich hlit, ← Except.ok.inj h, hlit.1]
          next hdig =>
            rw [koerper_of_not_woertlich hdig, ← String.append_assoc]
            exact (Except.ok.inj h).symm
  · rintro ⟨hne, hleg, n, rfl, rfl⟩
    have hpos : ¬(n : Int) < 0 := Int.not_lt.mpr (Int.natCast_nonneg n)
    unfold deriveClientOrderId
    rw [if_neg hne, if_neg (not_not.mpr hleg), if_neg hpos]
    split
    next hlit => rw [koerper_of_woertlich hlit, hlit.1]
    next hdig => rw [koerper_of_not_woertlich hdig, String.append_assoc]

/-- The body of a key is no other than the decision or its digest form. -/
theorem koerper_cases (decisionId leg : String) (n : Nat) :
    Woertlich decisionId leg n ∧ koerper digest decisionId leg n = decisionId ∨
      ¬Woertlich decisionId leg n ∧ koerper digest decisionId leg n = "_" ++ digest decisionId := by
  by_cases h : Woertlich decisionId leg n
  · exact .inl ⟨h, koerper_of_woertlich h⟩
  · exact .inr ⟨h, koerper_of_not_woertlich h⟩

/-- A literal body has no underscore and no line break. -/
theorem Woertlich.notMem {decisionId leg : String} {n : Nat} (h : Woertlich decisionId leg n) :
    '_' ∉ decisionId.toList ∧ '\n' ∉ decisionId.toList := by
  refine ⟨fun hm => ?_, fun hm => ?_⟩
  · rw [← h.1] at hm
    exact absurd (erlaubt_of_mem_rumpf hm) (by decide)
  · rw [← h.1] at hm
    exact absurd (erlaubt_of_mem_rumpf hm) (by decide)

theorem Woertlich.ne_digest {decisionId leg : String} {n : Nat} (h : Woertlich decisionId leg n)
    (s : String) : decisionId ≠ "_" ++ s := by
  intro heq
  have hm : '_' ∈ decisionId.toList := by simp [heq]
  exact h.notMem.1 hm

/-- The bodies of keys of the same leg and attempt tell their decisions apart. -/
theorem koerper_inj {decisionId decisionId' leg leg' : String} {n n' : Nat}
    (hinj : digest decisionId = digest decisionId' → decisionId = decisionId')
    (h : koerper digest decisionId leg n = koerper digest decisionId' leg' n') :
    decisionId = decisionId' := by
  rcases koerper_cases decisionId leg n with ⟨hlit, hk⟩ | ⟨-, hk⟩
  · rcases koerper_cases decisionId' leg' n' with ⟨-, hk'⟩ | ⟨-, hk'⟩
    · rwa [hk, hk'] at h
    · rw [hk, hk'] at h
      exact absurd h (hlit.ne_digest _)
  · rcases koerper_cases decisionId' leg' n' with ⟨hlit', hk'⟩ | ⟨-, hk'⟩
    · rw [hk, hk'] at h
      exact absurd h.symm (hlit'.ne_digest _)
    · rw [hk, hk'] at h
      exact hinj (by simpa using h)

/-! ## The length of a key -/

theorem length_le_of_mem_legs {leg : String} (h : leg ∈ legs) : leg.length ≤ 15 := by
  simp only [legs, List.map_cons, List.map_nil, List.mem_cons, List.not_mem_nil, or_false] at h
  rcases h with rfl | rfl | rfl | rfl | rfl | rfl | rfl <;> decide

theorem kopf_length (leg : String) (n : Nat) :
    (kopf leg n).length = leg.length + (Nat.toDigits 10 n).length + 2 := by
  rw [← String.length_toList, kopf_toList, toString_toList]
  simp only [List.length_append, List.length_cons, List.length_nil, String.length_toList]
  omega

/-- A key with an attempt of at most nine digits is not too long. -/
theorem kopf_koerper_length (hdigest : ∀ s, (digest s).length = 32) {decisionId leg : String}
    (hleg : leg ∈ legs) {n : Nat} (hn : n < 10 ^ 9) :
    (kopf leg n ++ koerper digest decisionId leg n).length ≤ maxClientOrderIdLen := by
  have hlegs := length_le_of_mem_legs hleg
  have hziffern : (Nat.toDigits 10 n).length ≤ 9 :=
    (Nat.length_toDigits_le_iff (by decide) (by decide)).mpr hn
  have hkopf := kopf_length leg n
  rw [String.length_append]
  rcases koerper_cases decisionId leg n with ⟨hlit, hk⟩ | ⟨-, hk⟩
  · rw [hk]
    have h := hlit.2
    rwa [hlit.1] at h
  · rw [hk, String.length_append, hdigest]
    have hstrich : "_".length = 1 := rfl
    unfold maxClientOrderIdLen
    omega

end

/-! ## Decisions and keys -/

/-- Decisions whose digests do not collide have different keys, for every leg and
attempt.  A key with an attempt below a billion is not too long, and what is read
from a key is its decision or nothing. -/
theorem schluessel_eindeutig {digest : String → String} (hdigest : ∀ s, IstHex (digest s))
    (z : Ziffern) :
    (∀ decisionId leg (n : Nat), decisionId ≠ "" → leg ∈ legs →
      ∃ key, deriveClientOrderId digest decisionId leg n = .ok key) ∧
    (∀ decisionId leg attempt decisionId' leg' attempt' key,
      (digest decisionId = digest decisionId' → decisionId = decisionId') →
      deriveClientOrderId digest decisionId leg attempt = .ok key →
      deriveClientOrderId digest decisionId' leg' attempt' = .ok key →
      decisionId = decisionId' ∧ leg = leg' ∧ attempt = attempt') ∧
    (∀ decisionId leg attempt key, deriveClientOrderId digest decisionId leg attempt = .ok key →
      attempt < 10 ^ 9 → key.length ≤ maxClientOrderIdLen) ∧
    ∀ decisionId leg attempt key, deriveClientOrderId digest decisionId leg attempt = .ok key →
      decisionIdAus z key = some decisionId ∨ decisionIdAus z key = none := by
  refine ⟨?_, ?_, ?_, ?_⟩
  · intro decisionId leg n hne hleg
    exact ⟨_, deriveClientOrderId_eq_ok_iff.mpr ⟨hne, hleg, n, rfl, rfl⟩⟩
  · intro decisionId leg attempt decisionId' leg' attempt' key hinj h h'
    obtain ⟨-, hleg, n, rfl, rfl⟩ := deriveClientOrderId_eq_ok_iff.mp h
    obtain ⟨-, hleg', n', rfl, hkey⟩ := deriveClientOrderId_eq_ok_iff.mp h'
    obtain ⟨hl, hn, hk⟩ := kopf_append_inj hleg hleg' hkey
    exact ⟨koerper_inj hinj hk, hl, congrArg Nat.cast hn⟩
  · intro decisionId leg attempt key h hlt
    obtain ⟨-, hleg, n, rfl, rfl⟩ := deriveClientOrderId_eq_ok_iff.mp h
    exact kopf_koerper_length (fun s => (hdigest s).1) hleg (by exact_mod_cast hlt)
  · intro decisionId leg attempt key h
    rw [decisionIdAus_deriveClientOrderId (fun s => ⟨(hdigest s).1, (hdigest s).zeile⟩) z h]
    split
    next => exact .inl rfl
    next => exact .inr rfl

/-- The digests of two decisions with a colon, and nothing but zeros for the others. -/
def zweiDigests (s : String) : String :=
  if s = "kauf:AAPL" then "88c926abdb0f00e7405cae614e96eae0"
  else if s = "kauf:MSFT" then "f354f35f0dd28f715e53a3ac1fac446a"
  else "00000000000000000000000000000000"

theorem zweiDigests_istHex (s : String) : IstHex (zweiDigests s) := by
  unfold zweiDigests
  split
  next => exact ⟨by decide, by simp⟩
  next =>
    split
    next => exact ⟨by decide, by simp⟩
    next => exact ⟨by decide, by simp⟩

/-- Two decisions that are not literal in their keys. -/
theorem schluessel_eindeutig_digest :
    ∃ key, deriveClientOrderId zweiDigests "kauf:AAPL" "entry" (0 : Nat) = .ok key ∧
      deriveClientOrderId zweiDigests "kauf:MSFT" "entry" (0 : Nat) ≠ .ok key := by
  obtain ⟨herhaelt, heindeutig, -, -⟩ := schluessel_eindeutig zweiDigests_istHex asciiZiffern
  obtain ⟨key, hkey⟩ := herhaelt "kauf:AAPL" "entry" 0 (by decide) (by decide)
  refine ⟨key, hkey, fun hkey' => ?_⟩
  have heq := (heindeutig "kauf:AAPL" "entry" (0 : Nat) "kauf:MSFT" "entry" (0 : Nat) key
    (by decide) hkey hkey').1
  exact absurd heq (by decide)

end Idempotenz
