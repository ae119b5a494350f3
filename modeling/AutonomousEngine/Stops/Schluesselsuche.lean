import AutonomousEngine.Basis.Program
import AutonomousEngine.Stops.Planer

/-!
# The search for a free key

A stop that is placed again needs a key that the broker has not seen.  The keys of
a stop are numbered by its attempts, and what is known is an attempt whose key is
used.  `erster_freier` asks the broker for the orders of later attempts, at first in
steps that double until a key is free, and then between the last used one and the
free one by halves.

All queries of a search are counted, and the one behind the cap raises.  A search
here has the number of queries it may still make.
-/

namespace Stops

open Basis
open Idempotenz (SchluesselFehler)

def maxAbfragen : ℕ := 64

/-- An exception of a query, with the number in its `status_code`, none where that
cannot be read. -/
structure Ausnahme where
  statusCode : Option ℤ
deriving DecidableEq, Repr

def nichtGefunden (exc : Ausnahme) : Bool := exc.statusCode == some 404

/-- Why a search ends without a key. -/
inductive Suchfehler where
  | zuVieleAbfragen
  | schluessel (e : SchluesselFehler)
  | ausnahme (exc : Ausnahme)

/-- What comes of a call of `get_order_by_client_id`. -/
abbrev Auskunft (Ω : Type) := Except Ausnahme Ω

/-- What a search returns or raises, its questions being keys. -/
abbrev Suche (Ω α : Type) := Raising String (fun _ => Auskunft Ω) Suchfehler α

/-- The order behind a key, none where the key is free. -/
def auswerten {Ω : Type} : Auskunft Ω → Except Suchfehler (Option Ω)
  | .ok order => .ok (some order)
  | .error exc => if nichtGefunden exc then .ok none else .error (.ausnahme exc)

theorem auswerten_frei {Ω : Type} {exc : Ausnahme} (h : nichtGefunden exc = true) :
    auswerten (.error exc : Auskunft Ω) = .ok none := if_pos h

theorem auswerten_fehler {Ω : Type} {exc : Ausnahme} (h : ¬nichtGefunden exc = true) :
    auswerten (.error exc : Auskunft Ω) = .error (.ausnahme exc) := if_neg h

section

variable {Ω : Type} (digest : String → String) (decisionId : String)

/-- `_Abfragen.order` below the cap: the order of an attempt. -/
def abfrage (versuch : ℕ) : Suche Ω (Option Ω) :=
  match schluessel digest decisionId versuch with
  | .error e => throw (.schluessel e)
  | .ok key => Raising.ask key >>= fun auskunft => Raising.raise (auswerten auskunft)

/-- The first loop of `erster_freier`, with the queries that are left.  It ends with a
used attempt, a free one, and the queries left then. -/
def galopp : ℕ → ℕ → ℕ → Suche Ω (ℕ × ℕ × ℕ)
  | 0, _, _ => throw .zuVieleAbfragen
  | rest + 1, lo, schritt => do
      let order ← abfrage digest decisionId (lo + schritt)
      if order.isSome then galopp rest (lo + schritt) (schritt * 2)
      else pure (lo, lo + schritt, rest)

/-- The second loop of `erster_freier`.  It ends with the attempt and the queries
left. -/
def bisektion : ℕ → ℕ → ℕ → Suche Ω (ℕ × ℕ)
  | 0, lo, hi => if 1 < hi - lo then throw .zuVieleAbfragen else pure (hi, 0)
  | rest + 1, lo, hi =>
      if 1 < hi - lo then do
        let mitte := (lo + hi) / 2
        let order ← abfrage digest decisionId mitte
        if order.isSome then bisektion rest mitte hi else bisektion rest lo mitte
      else pure (hi, rest + 1)

/-- `_Abfragen.erster_freier` after `zahl` queries. -/
def ersterFreier (zahl vergeben : ℕ) : Suche Ω (ℕ × ℕ) := do
  let (lo, hi, rest) ← galopp digest decisionId (maxAbfragen - zahl) vergeben 1
  bisektion digest decisionId rest lo hi

end

/-! ## What was seen -/

section

variable {Ω : Type} {digest : String → String} {decisionId : String}

/-- The broker was asked for the key of an attempt and knew no order. -/
def Gesehen (digest : String → String) (decisionId : String) (versuch : ℕ)
    (l : List (Σ _ : String, Auskunft Ω)) : Prop :=
  ∃ key exc, schluessel digest decisionId versuch = .ok key ∧
    (⟨key, .error exc⟩ : Σ _ : String, Auskunft Ω) ∈ l ∧ nichtGefunden exc = true

theorem Gesehen.mono {versuch : ℕ} {l l' : List (Σ _ : String, Auskunft Ω)}
    (h : Gesehen digest decisionId versuch l) (hl : l ⊆ l') :
    Gesehen digest decisionId versuch l' := by
  obtain ⟨key, exc, hkey, hmem, hexc⟩ := h
  exact ⟨key, exc, hkey, hl hmem, hexc⟩

/-- The log of a search, under no condition. -/
abbrev protokoll (Ω : Type) :
    Protocol String (fun _ => Auskunft Ω) (List (Σ _ : String, Auskunft Ω)) :=
  Protocol.logs fun _ => True

/-- A query that finds no order has seen that the key is free. -/
theorem meets_abfrage (versuch : ℕ) (l : List (Σ _ : String, Auskunft Ω)) :
    Meets (protokoll Ω) l (abfrage digest decisionId versuch)
      (fun order l' => l ⊆ l' ∧ (order = none → Gesehen digest decisionId versuch l'))
      fun _ _ => True := by
  unfold abfrage
  cases hkey : schluessel digest decisionId versuch with
  | error e => trivial
  | ok key =>
      refine meets_bind.mpr fun auskunft => ⟨_, ⟨rfl, trivial⟩, ?_⟩
      show Ending _ _ (auswerten auskunft) _
      cases auskunft with
      | ok order => exact ⟨List.subset_append_left l _, fun h => by cases h⟩
      | error exc =>
          by_cases hexc : nichtGefunden exc = true
          · rw [auswerten_frei hexc]
            exact ⟨List.subset_append_left l _, fun _ => ⟨key, exc, hkey, by simp, hexc⟩⟩
          · rw [auswerten_fehler hexc]
            trivial

theorem meets_galopp (rest lo schritt : ℕ) (l : List (Σ _ : String, Auskunft Ω)) :
    Meets (protokoll Ω) l (galopp digest decisionId rest lo schritt)
      (fun r l' => Gesehen digest decisionId r.2.1 l') fun _ _ => True := by
  induction rest generalizing lo schritt l with
  | zero => trivial
  | succ rest ih =>
      refine meets_bind.mpr ((meets_abfrage (lo + schritt) l).mono ?_ fun _ _ _ => trivial)
      rintro (- | order) l' ⟨-, hfrei⟩
      · exact hfrei rfl
      · exact ih (lo + schritt) (schritt * 2) l'

/-- The upper end of the second loop was seen to be free at all times. -/
theorem meets_bisektion (rest lo hi : ℕ) {l : List (Σ _ : String, Auskunft Ω)}
    (h : Gesehen digest decisionId hi l) :
    Meets (protokoll Ω) l (bisektion digest decisionId rest lo hi)
      (fun r l' => Gesehen digest decisionId r.1 l') fun _ _ => True := by
  induction rest generalizing lo hi l with
  | zero =>
      unfold bisektion
      split
      · trivial
      · exact h
  | succ rest ih =>
      unfold bisektion
      split
      · refine meets_bind.mpr ((meets_abfrage ((lo + hi) / 2) l).mono ?_ fun _ _ _ => trivial)
        rintro (- | order) l' ⟨hsub, hfrei⟩
        · exact ih lo ((lo + hi) / 2) (hfrei rfl)
        · exact ih ((lo + hi) / 2) hi (h.mono hsub)
      · exact h

/-- Whatever a search is answered, the attempt it returns was seen to be free. -/
theorem meets_ersterFreier (zahl vergeben : ℕ) (l : List (Σ _ : String, Auskunft Ω)) :
    Meets (protokoll Ω) l (ersterFreier digest decisionId zahl vergeben)
      (fun r l' => Gesehen digest decisionId r.1 l') fun _ _ => True :=
  meets_bind.mpr ((meets_galopp (maxAbfragen - zahl) vergeben 1 l).mono
    (fun r _ hr => meets_bisektion r.2.2 r.1 r.2.1 hr) fun _ _ _ => trivial)

/-! ## Keys without a gap -/

/-- The broker knows the keys of the attempts up to one, and no others. -/
structure BelegtBis (digest : String → String) (decisionId : String) (k : ℕ)
    (api : String → Auskunft Ω) : Prop where
  belegt : ∀ a ≤ k, ∃ key order, schluessel digest decisionId a = .ok key ∧ api key = .ok order
  frei : ∀ key, (∀ a : ℕ, a ≤ k → schluessel digest decisionId a ≠ .ok key) →
    ∃ exc, api key = .error exc ∧ nichtGefunden exc = true

theorem schluessel_inj {a b : ℕ} {key : String} (ha : schluessel digest decisionId a = .ok key)
    (hb : schluessel digest decisionId b = .ok key) : a = b := by
  obtain ⟨-, hleg, n, hn, hkey⟩ := Idempotenz.deriveClientOrderId_eq_ok_iff.mp ha
  obtain ⟨-, -, m, hm, hkey'⟩ := Idempotenz.deriveClientOrderId_eq_ok_iff.mp hb
  obtain ⟨-, hnm, -⟩ := Idempotenz.kopf_append_inj hleg hleg (hkey.symm.trans hkey')
  omega

/-- Where there is a key for one attempt there is one for each. -/
theorem schluessel_eq_ok {a : ℕ} {key : String} (h : schluessel digest decisionId a = .ok key)
    (b : ℕ) : ∃ key', schluessel digest decisionId b = .ok key' := by
  obtain ⟨hne, hleg, -⟩ := Idempotenz.deriveClientOrderId_eq_ok_iff.mp h
  exact ⟨_, Idempotenz.deriveClientOrderId_eq_ok_iff.mpr ⟨hne, hleg, b, rfl, rfl⟩⟩

variable {k : ℕ} {api : String → Auskunft Ω}

theorem replies_abfrage {a : ℕ} {key : String} (h : schluessel digest decisionId a = .ok key) :
    (abfrage digest decisionId a).run.replies api = (auswerten (api key), [⟨key, api key⟩]) := by
  unfold abfrage
  rw [h]
  rfl

variable (hk : BelegtBis digest decisionId k api)

include hk

theorem BelegtBis.gives_belegt {a : ℕ} (ha : a ≤ k) :
    ∃ order, Gives api (abfrage digest decisionId a) (some order) fun l => l.length = 1 := by
  obtain ⟨key, order, hkey, hapi⟩ := hk.belegt a ha
  refine ⟨order, [⟨key, api key⟩], ?_, rfl⟩
  rw [replies_abfrage hkey, hapi]
  rfl

theorem BelegtBis.gives_frei {a : ℕ} (ha : k < a) :
    Gives api (abfrage digest decisionId a) none fun l => l.length = 1 := by
  obtain ⟨_, _, h0, _⟩ := hk.belegt 0 (Nat.zero_le k)
  obtain ⟨key, hkey⟩ := schluessel_eq_ok h0 a
  have hneu : ∀ b : ℕ, b ≤ k → schluessel digest decisionId b ≠ .ok key := by
    intro b hb hbkey
    have := schluessel_inj hkey hbkey
    omega
  obtain ⟨exc, hapi, hexc⟩ := hk.frei key hneu
  refine ⟨[⟨key, api key⟩], ?_, rfl⟩
  rw [replies_abfrage hkey, hapi, auswerten_frei hexc]

/-- The steps double until the last used attempt is passed.  With `j` queries an attempt
`schritt * (2 ^ j - 1)` further on is reached. -/
theorem BelegtBis.gives_galopp (j : ℕ) : ∀ rest lo schritt : ℕ, lo ≤ k →
    k < lo + schritt * (2 ^ j - 1) → j ≤ rest →
    ∃ i lo', i < j ∧ lo' ≤ k ∧ k < lo' + schritt * 2 ^ i ∧
      Gives api (galopp digest decisionId rest lo schritt)
        (lo', lo' + schritt * 2 ^ i, rest - (i + 1)) fun l => l.length = i + 1 := by
  induction j with
  | zero =>
      intro rest lo schritt hlo hhi _
      simp at hhi
      omega
  | succ j ih =>
      intro rest lo schritt hlo hhi hrest
      obtain ⟨rest, rfl⟩ : ∃ r, rest = r + 1 := ⟨rest - 1, by omega⟩
      by_cases hbelegt : lo + schritt ≤ k
      · have hpow : schritt * (2 ^ (j + 1) - 1) = schritt + schritt * 2 * (2 ^ j - 1) := by
          have := Nat.one_le_two_pow (n := j)
          rw [pow_succ, show 2 ^ j * 2 - 1 = 1 + 2 * (2 ^ j - 1) by omega]
          ring
        obtain ⟨i, lo', hi, hlo', hhi', hgives⟩ :=
          ih rest (lo + schritt) (schritt * 2) hbelegt (by omega) (by omega)
        have hschritt : schritt * 2 * 2 ^ i = schritt * 2 ^ (i + 1) := by ring
        rw [hschritt] at hhi' hgives
        obtain ⟨order, horder⟩ := hk.gives_belegt hbelegt
        refine ⟨i + 1, lo', by omega, hlo', hhi', ?_⟩
        rw [Nat.add_sub_add_right]
        refine gives_bind horder fun l hl => hgives.mono fun l' hl' => ?_
        rw [List.length_append, hl, hl']
        omega
      · refine ⟨0, lo, by omega, hlo, by simpa using not_le.mp hbelegt, ?_⟩
        refine gives_bind (hk.gives_frei (not_le.mp hbelegt)) fun l hl => ?_
        rw [pow_zero, mul_one]
        exact gives_pure (by simpa using hl)

/-- The lower end is used and the upper end is free.  Each query halves what is
between them. -/
theorem BelegtBis.gives_bisektion (i : ℕ) : ∀ rest lo hi : ℕ, lo ≤ k → k < hi →
    hi - lo ≤ 2 ^ i → i ≤ rest →
    ∃ rest', Gives api (bisektion digest decisionId rest lo hi) (k + 1, rest')
      fun l => l.length + rest' = rest := by
  induction i with
  | zero =>
      intro rest lo hi hlo hhi hpow _
      obtain rfl : hi = k + 1 := by simp at hpow; omega
      have hende : ¬1 < k + 1 - lo := by simpa using hpow
      refine ⟨rest, ?_⟩
      cases rest with
      | zero =>
          rw [bisektion, if_neg hende]
          exact gives_pure rfl
      | succ rest =>
          rw [bisektion, if_neg hende]
          exact gives_pure (Nat.zero_add _)
  | succ i ih =>
      intro rest lo hi hlo hhi hpow hrest
      obtain ⟨rest, rfl⟩ : ∃ r, rest = r + 1 := ⟨rest - 1, by omega⟩
      rw [pow_succ] at hpow
      rw [bisektion]
      by_cases hweit : 1 < hi - lo
      · rw [if_pos hweit]
        by_cases hbelegt : (lo + hi) / 2 ≤ k
        · obtain ⟨order, horder⟩ := hk.gives_belegt hbelegt
          obtain ⟨rest', hgives⟩ := ih rest ((lo + hi) / 2) hi hbelegt hhi (by omega) (by omega)
          refine ⟨rest', gives_bind horder fun l hl => hgives.mono fun l' hl' => ?_⟩
          rw [List.length_append, hl]
          omega
        · have hfrei := hk.gives_frei (not_le.mp hbelegt)
          obtain ⟨rest', hgives⟩ :=
            ih rest lo ((lo + hi) / 2) hlo (not_le.mp hbelegt) (by omega) (by omega)
          refine ⟨rest', gives_bind hfrei fun l hl => hgives.mono fun l' hl' => ?_⟩
          rw [List.length_append, hl]
          omega
      · rw [if_neg hweit]
        obtain rfl : hi = k + 1 := by omega
        exact ⟨rest + 1, gives_pure (Nat.zero_add _)⟩

/-- With `2 * j - 1` queries the first free attempt is found, if it is fewer than
`2 ^ j - 1` behind the one that is known. -/
theorem BelegtBis.gives_ersterFreier {j zahl v : ℕ} (hv : v ≤ k) (hj : k < v + (2 ^ j - 1))
    (hzahl : zahl + (2 * j - 1) ≤ maxAbfragen) :
    ∃ rest, Gives api (ersterFreier digest decisionId zahl v) (k + 1, rest)
      fun l => zahl + l.length + rest = maxAbfragen := by
  obtain ⟨i, lo, hi, hlo, hhi, hgalopp⟩ :=
    hk.gives_galopp j (maxAbfragen - zahl) v 1 hv (by simpa using hj) (by omega)
  rw [one_mul] at hhi hgalopp
  obtain ⟨rest, hgives⟩ := hk.gives_bisektion i (maxAbfragen - zahl - (i + 1)) lo (lo + 2 ^ i)
    hlo hhi (by omega) (by omega)
  refine ⟨rest, gives_bind hgalopp fun l hl => hgives.mono fun l' hl' => ?_⟩
  rw [List.length_append, hl]
  omega

end

/-! ## The first free key -/

/-- A search finds the first free attempt below the cap when the used ones have no gap,
also when up to three queries were made before.  Whatever a search is answered, the
attempt it returns was seen to be free. -/
theorem ersterFreier_frei (Ω : Type) (digest : String → String) (decisionId : String) :
    (∀ (api : String → Auskunft Ω) (k v zahl : ℕ), BelegtBis digest decisionId k api → v ≤ k →
      k - v < 2 ^ 30 → zahl ≤ 3 →
      ∃ rest, Gives api (ersterFreier digest decisionId zahl v) (k + 1, rest)
        fun l => zahl + l.length + rest = maxAbfragen) ∧
    ∀ (v zahl n rest : ℕ) (l : List (Σ _ : String, Auskunft Ω)),
      (ersterFreier digest decisionId zahl v).run.Yields l (.ok (n, rest)) →
      Gesehen digest decisionId n l := by
  constructor
  · intro api k v zahl hk hv hweit hzahl
    refine hk.gives_ersterFreier (j := 31) hv ?_ ?_
    · omega
    · show zahl + 61 ≤ 64
      omega
  · intro v zahl n rest l hl
    obtain ⟨z, hz, hR⟩ := (meets_ersterFreier zahl v []).yields .nil hl
    obtain ⟨rfl, -⟩ := hz.of_logs trivial
    exact hR

/-- A broker that knows the first two keys of a stop. -/
def zweiSchluessel (key : String) : Auskunft Unit :=
  if key = "stop-0-stop-A" ∨ key = "stop-1-stop-A" then .ok () else .error ⟨some 404⟩

theorem belegtBis_zweiSchluessel : BelegtBis id "stop-A" 1 zweiSchluessel where
  belegt a ha := by
    obtain rfl | rfl : a = 0 ∨ a = 1 := by omega
    · exact ⟨"stop-0-stop-A", (), by decide, by decide⟩
    · exact ⟨"stop-1-stop-A", (), by decide, by decide⟩
  frei key hkey := by
    have h0 : key ≠ "stop-0-stop-A" := fun h => hkey 0 (by decide) (by rw [h]; decide)
    have h1 : key ≠ "stop-1-stop-A" := fun h => hkey 1 (by decide) (by rw [h]; decide)
    exact ⟨⟨some 404⟩, if_neg (not_or.mpr ⟨h0, h1⟩), by decide⟩

theorem ersterFreier_frei_zwei :
    ∃ n rest l, (ersterFreier id "stop-A" 0 0).run.Yields l (.ok (n, rest)) ∧
      n = 2 ∧ Gesehen (Ω := Unit) id "stop-A" n l := by
  obtain ⟨hfindet, hgesehen⟩ := ersterFreier_frei Unit id "stop-A"
  obtain ⟨rest, hgives⟩ := hfindet zweiSchluessel 1 0 0 belegtBis_zweiSchluessel (by decide)
    (by decide) (by decide)
  obtain ⟨l, hl, -⟩ := hgives.yields
  exact ⟨2, rest, l, hl, rfl, hgesehen 0 0 2 rest l hl⟩

end Stops
