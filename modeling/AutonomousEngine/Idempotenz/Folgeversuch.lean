import AutonomousEngine.Idempotenz.Eindeutig

/-!
# Follow-up keys

The key of the next attempt has the leg and the body of the key before and an
attempt one higher.  It is cut at the length limit, so it keeps the body exactly
when it is short enough (`folge_eq_iff`).  The attempt grows by a digit at a power
of ten, and a key at the limit then loses the end of its decision.

As long as the body is kept, the follow-up keys of two decisions differ, however
often either is counted up.  The key of an approval has no leg to be counted up, and
gets a digest of its own (`nextAttempt_freigabe`).
-/

namespace Idempotenz

variable (digest : String → String) (z : Ziffern)

/-- The key `k` attempts later. -/
def folge : Nat → String → Except SchluesselFehler String
  | 0, key => .ok key
  | k + 1, key => folge k key >>= nextAttempt digest z

variable {digest}

/-! ## One attempt more -/

theorem nextAttempt_kopf {leg : String} (hleg : leg ∈ legs) (n : Nat) {rest : String}
    (hne : rest ≠ "") (hrest : '\n' ∉ rest.toList) :
    nextAttempt digest z (kopf leg n ++ rest) =
      .ok (gekappt maxClientOrderIdLen (kopf leg (n + 1 : Nat) ++ rest)) := by
  have hkey : kopf leg n ++ rest ≠ "" := fun h => hne (String.append_eq_empty_iff.mp h).2
  simp only [nextAttempt, if_neg hkey, strukturiert_kopf z hleg n hne hrest, if_pos hleg,
    z.zahl_toString]

theorem gekappt_eq_self_iff {n : Nat} {s : String} : gekappt n s = s ↔ s.length ≤ n := by
  rw [gekappt, ← String.toList_inj, String.toList_ofList, List.take_eq_self_iff,
    String.length_toList]

theorem gekappt_length_le (n : Nat) (s : String) : (gekappt n s).length ≤ n := by
  rw [gekappt, ← String.length_toList, String.toList_ofList]
  exact List.length_take_le n s.toList

/-- The next attempt of an approval.  Its key has the wrong leg to be counted up. -/
theorem nextAttempt_freigabe (approvalId : String) :
    nextAttempt digest z (gekappt maxClientOrderIdLen ("hitl-" ++ approvalId)) =
      .ok ("retry-1-_" ++ digest (gekappt maxClientOrderIdLen ("hitl-" ++ approvalId))) := by
  have hliste : (gekappt maxClientOrderIdLen ("hitl-" ++ approvalId)).toList =
      "hitl".toList ++ '-' :: approvalId.toList.take 123 := by
    simp [gekappt, maxClientOrderIdLen]
  have hsplit := Basis.splitAtMost_append (show '-' ∉ "hitl".toList by decide) 1
    (approvalId.toList.take 123)
  have hne : gekappt maxClientOrderIdLen ("hitl-" ++ approvalId) ≠ "" := by
    intro h
    rw [h] at hliste
    cases hliste
  rw [nextAttempt, if_neg hne]
  split
  next leg attempt rest hs =>
    have hleg : leg = "hitl" := by
      unfold strukturiert at hs
      split at hs
      next leg' attempt' rest' heq =>
        rw [hliste, hsplit] at heq
        obtain ⟨rfl, -⟩ := List.cons.inj heq
        dsimp only at hs
        split at hs
        next =>
          obtain ⟨rfl, -⟩ := Prod.mk.inj (Option.some.inj hs)
          exact String.ofList_toList
        next => cases hs
      next => cases hs
    rw [if_neg (by rw [hleg]; decide)]
  next => rfl

/-- No key of a next attempt is too long. -/
theorem nextAttempt_length (hdigest : ∀ s, (digest s).length = 32) {key key' : String}
    (h : nextAttempt digest z key = .ok key') : key'.length ≤ maxClientOrderIdLen := by
  have hretry : ("retry-1-_" ++ digest key).length ≤ maxClientOrderIdLen := by
    rw [String.length_append, hdigest]
    decide
  unfold nextAttempt at h
  split at h
  next => cases h
  next =>
    split at h
    next =>
      split at h
      next => exact Except.ok.inj h ▸ gekappt_length_le _ _
      next => exact Except.ok.inj h ▸ hretry
    next => exact Except.ok.inj h ▸ hretry

/-! ## Many attempts more -/

theorem kopf_length_mono (leg : String) {n m : Nat} (h : n ≤ m) :
    (kopf leg n).length ≤ (kopf leg m).length := by
  have hziffern : (Nat.toDigits 10 n).length ≤ (Nat.toDigits 10 m).length := by
    have hm : m < 10 ^ (Nat.toDigits 10 m).length :=
      (Nat.length_toDigits_le_iff (by decide) Nat.length_toDigits_pos).mp le_rfl
    exact (Nat.length_toDigits_le_iff (by decide) Nat.length_toDigits_pos).mpr
      (Nat.lt_of_le_of_lt h hm)
  rw [kopf_length, kopf_length]
  omega

theorem koerper_ne {decisionId : String} (h : decisionId ≠ "") (leg : String) (n : Nat) :
    koerper digest decisionId leg n ≠ "" := by
  rcases @koerper_cases digest decisionId leg n with ⟨-, hk⟩ | ⟨-, hk⟩
  · rwa [hk]
  · rw [hk]
    simp

theorem koerper_zeile (hdigest : ∀ s, IstHex (digest s)) (decisionId leg : String) (n : Nat) :
    '\n' ∉ (koerper digest decisionId leg n).toList := by
  rcases @koerper_cases digest decisionId leg n with ⟨hlit, hk⟩ | ⟨-, hk⟩
  · rw [hk]
    exact hlit.notMem.2
  · rw [hk]
    simpa using (hdigest decisionId).zeile

/-- A follow-up key that is short enough keeps the body. -/
theorem folge_kopf {leg : String} (hleg : leg ∈ legs) (n : Nat) {rest : String} (hne : rest ≠ "")
    (hrest : '\n' ∉ rest.toList) {k : Nat}
    (hk : k = 0 ∨ (kopf leg (n + k : Nat)).length + rest.length ≤ maxClientOrderIdLen) :
    folge digest z k (kopf leg n ++ rest) = .ok (kopf leg (n + k : Nat) ++ rest) := by
  induction k with
  | zero => rfl
  | succ k ih =>
      have hlen : (kopf leg (n + (k + 1) : Nat)).length + rest.length ≤ maxClientOrderIdLen :=
        hk.resolve_left (Nat.succ_ne_zero k)
      have hmono := kopf_length_mono leg (show n + k ≤ n + (k + 1) by omega)
      have hvor := ih (.inr (by omega))
      show folge digest z k (kopf leg n ++ rest) >>= nextAttempt digest z = _
      rw [hvor]
      show nextAttempt digest z (kopf leg (n + k : Nat) ++ rest) = _
      rw [nextAttempt_kopf z hleg (n + k) hne hrest]
      refine congrArg Except.ok (gekappt_eq_self_iff.mpr ?_)
      rwa [String.length_append]

theorem folge_length (hdigest : ∀ s, (digest s).length = 32) {k : Nat} (hk : 0 < k)
    {key key' : String} (h : folge digest z k key = .ok key') :
    key'.length ≤ maxClientOrderIdLen := by
  cases k with
  | zero => exact absurd hk (Nat.lt_irrefl 0)
  | succ k =>
      simp only [folge] at h
      cases hvor : folge digest z k key with
      | error e => rw [hvor] at h; cases h
      | ok c =>
          rw [hvor] at h
          exact nextAttempt_length z hdigest h

/-- A follow-up key keeps the body exactly when it is short enough. -/
theorem folge_eq_iff (hdigest : ∀ s, IstHex (digest s)) {decisionId leg key : String} {n k : Nat}
    (hkey : deriveClientOrderId digest decisionId leg n = .ok key) (hk : 0 < k) :
    folge digest z k key = .ok (kopf leg (n + k : Nat) ++ koerper digest decisionId leg n) ↔
      (kopf leg (n + k : Nat)).length + (koerper digest decisionId leg n).length ≤
        maxClientOrderIdLen := by
  obtain ⟨hne, hleg, m, hm, rfl⟩ := deriveClientOrderId_eq_ok_iff.mp hkey
  obtain rfl : n = m := Int.ofNat.inj hm
  constructor
  · intro h
    have hlen := folge_length z (fun s => (hdigest s).1) hk h
    rwa [String.length_append] at hlen
  · intro h
    exact folge_kopf z hleg n (koerper_ne hne leg n) (koerper_zeile hdigest decisionId leg n)
      (.inr h)

/-! ## Decisions and their follow-up keys -/

/-- The next attempt of a derived key is the derived key of the next attempt with
the same body exactly when that is short enough, and so is every later one.  As
long as they are, keys of decisions that do not collide never meet. -/
theorem folgeversuch_iff (hdigest : ∀ s, IstHex (digest s)) :
    (∀ decisionId leg key (n k : Nat), deriveClientOrderId digest decisionId leg n = .ok key →
      0 < k →
      (folge digest z k key = .ok (kopf leg (n + k : Nat) ++ koerper digest decisionId leg n) ↔
        (kopf leg (n + k : Nat)).length + (koerper digest decisionId leg n).length ≤
          maxClientOrderIdLen)) ∧
    ∀ decisionId leg key (n k : Nat) decisionId' leg' key' (n' k' : Nat) s,
      (digest decisionId = digest decisionId' → decisionId = decisionId') →
      decisionId ≠ decisionId' →
      deriveClientOrderId digest decisionId leg n = .ok key →
      deriveClientOrderId digest decisionId' leg' n' = .ok key' →
      (k = 0 ∨ (kopf leg (n + k : Nat)).length + (koerper digest decisionId leg n).length ≤
        maxClientOrderIdLen) →
      (k' = 0 ∨ (kopf leg' (n' + k' : Nat)).length + (koerper digest decisionId' leg' n').length ≤
        maxClientOrderIdLen) →
      folge digest z k key = .ok s → folge digest z k' key' ≠ .ok s := by
  refine ⟨fun decisionId leg key n k hkey hk => folge_eq_iff z hdigest hkey hk, ?_⟩
  intro decisionId leg key n k decisionId' leg' key' n' k' s hinj hdiff hkey hkey' hlen hlen' hs hs'
  obtain ⟨hne, hleg, m, hm, rfl⟩ := deriveClientOrderId_eq_ok_iff.mp hkey
  obtain rfl : n = m := Int.ofNat.inj hm
  obtain ⟨hne', hleg', m', hm', rfl⟩ := deriveClientOrderId_eq_ok_iff.mp hkey'
  obtain rfl : n' = m' := Int.ofNat.inj hm'
  rw [folge_kopf z hleg n (koerper_ne hne leg n) (koerper_zeile hdigest decisionId leg n)
    hlen] at hs
  rw [folge_kopf z hleg' n' (koerper_ne hne' leg' n') (koerper_zeile hdigest decisionId' leg' n')
    hlen', ← hs] at hs'
  obtain ⟨-, -, hk⟩ := kopf_append_inj hleg' hleg (Except.ok.inj hs')
  exact hdiff (koerper_inj hinj hk.symm)

/-- Two digest keys counted up. -/
theorem folgeversuch_iff_digest :
    folge zweiDigests asciiZiffern 1 "entry-9-_88c926abdb0f00e7405cae614e96eae0" =
        .ok "entry-10-_88c926abdb0f00e7405cae614e96eae0" ∧
      folge zweiDigests asciiZiffern 1 "entry-9-_88c926abdb0f00e7405cae614e96eae0" ≠
        folge zweiDigests asciiZiffern 1 "entry-9-_f354f35f0dd28f715e53a3ac1fac446a" := by
  have hkey : deriveClientOrderId zweiDigests "kauf:AAPL" "entry" (9 : Nat) =
      .ok "entry-9-_88c926abdb0f00e7405cae614e96eae0" := by decide +kernel
  have hkey' : deriveClientOrderId zweiDigests "kauf:MSFT" "entry" (9 : Nat) =
      .ok "entry-9-_f354f35f0dd28f715e53a3ac1fac446a" := by decide +kernel
  obtain ⟨hiff, hgetrennt⟩ := folgeversuch_iff asciiZiffern zweiDigests_istHex
  have hfolge := (hiff "kauf:AAPL" "entry" _ 9 1 hkey (by decide)).mpr (by decide +kernel)
  have hform : kopf "entry" (9 + 1 : Nat) ++ koerper zweiDigests "kauf:AAPL" "entry" 9 =
      "entry-10-_88c926abdb0f00e7405cae614e96eae0" := by decide +kernel
  refine ⟨hform ▸ hfolge, fun h => ?_⟩
  rw [hfolge] at h
  exact hgetrennt "kauf:AAPL" "entry" _ 9 1 "kauf:MSFT" "entry" _ 9 1 _ (by decide) (by decide)
    hkey hkey' (.inr (by decide +kernel)) (.inr (by decide +kernel)) hfolge h.symm

theorem gekappt_append_of_le {n : Nat} {s t : String} (h : n ≤ s.length) :
    gekappt n (s ++ t) = gekappt n s := by
  rw [gekappt, gekappt, String.toList_append, List.take_append_of_le_length]
  rwa [String.length_toList]

/-- A decision of a hundred and twenty characters. -/
def langeEntscheidung (c : Char) : String := String.ofList (List.replicate 119 'a' ++ [c])

/-- Behind a header of nine characters there is no room for the last one. -/
theorem gekappt_langeEntscheidung {k : String} (hk : k.length = 9) (c : Char) :
    gekappt maxClientOrderIdLen (k ++ langeEntscheidung c) =
      gekappt maxClientOrderIdLen (k ++ String.ofList (List.replicate 119 'a')) := by
  rw [langeEntscheidung, String.ofList_append, ← String.append_assoc, gekappt_append_of_le]
  rw [String.length_append, String.length_ofList, List.length_replicate, hk, maxClientOrderIdLen]

/-- At the tenth attempt the keys of two long decisions become one. -/
theorem folgeversuch_verschmolzen :
    langeEntscheidung 'b' ≠ langeEntscheidung 'c' ∧
      ∃ key key', deriveClientOrderId zweiDigests (langeEntscheidung 'b') "entry" (9 : Nat) = .ok key ∧
        deriveClientOrderId zweiDigests (langeEntscheidung 'c') "entry" (9 : Nat) = .ok key' ∧
        nextAttempt zweiDigests asciiZiffern key = nextAttempt zweiDigests asciiZiffern key' := by
  have hleg : "entry" ∈ legs := legText_mem_legs .entry
  have hkey : ∀ c, langeEntscheidung c ≠ "" → Woertlich (langeEntscheidung c) "entry" 9 →
      deriveClientOrderId zweiDigests (langeEntscheidung c) "entry" (9 : Nat) =
        .ok (kopf "entry" (9 : Nat) ++ langeEntscheidung c) := by
    intro c hne hlit
    refine deriveClientOrderId_eq_ok_iff.mpr ⟨hne, hleg, 9, rfl, ?_⟩
    rw [koerper_of_woertlich hlit]
  have hfolge : ∀ c, langeEntscheidung c ≠ "" → Woertlich (langeEntscheidung c) "entry" 9 →
      nextAttempt zweiDigests asciiZiffern (kopf "entry" (9 : Nat) ++ langeEntscheidung c) =
        .ok (gekappt maxClientOrderIdLen (kopf "entry" (9 + 1 : Nat) ++ langeEntscheidung c)) :=
    fun _ hne hlit => nextAttempt_kopf asciiZiffern hleg 9 hne hlit.notMem.2
  have hb : Woertlich (langeEntscheidung 'b') "entry" 9 := by decide +kernel
  have hc : Woertlich (langeEntscheidung 'c') "entry" 9 := by decide +kernel
  have hneb : langeEntscheidung 'b' ≠ "" := by decide +kernel
  have hnec : langeEntscheidung 'c' ≠ "" := by decide +kernel
  refine ⟨by decide +kernel, _, _, hkey 'b' hneb hb, hkey 'c' hnec hc, ?_⟩
  have hkopf : (kopf "entry" (9 + 1 : Nat)).length = 9 := by decide +kernel
  rw [hfolge 'b' hneb hb, hfolge 'c' hnec hc, gekappt_langeEntscheidung hkopf,
    gekappt_langeEntscheidung hkopf]

end Idempotenz
