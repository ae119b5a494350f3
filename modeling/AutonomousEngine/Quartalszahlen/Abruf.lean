import AutonomousEngine.Basis.Mealy
import AutonomousEngine.Basis.Text
import AutonomousEngine.Quartalszahlen.Waechter

/-!
# The producer of the cache

`ensure_fresh_earnings_cache` runs beside the cycles.  A new day begins with an empty
cache, and a symbol is fetched when it has no entry.  Half an hour after failed fetches
have been tried again they may be tried once more, and a fifth failure in a row ends a
call.  A call whose cache cannot be written leaves the old one.

After any run the guard judges a symbol by its last attempt of the day of the cache
(`sperre_nach_abruf`).  On a day a symbol is fetched until it succeeds, and not again
(`abrufe_eines_tages`).

Times are microseconds of the clock of the engine, which is the one of UTC.
-/

namespace Quartalszahlen

open Basis

def tag : ℤ := 24 * 60 * 60 * 1000000

/-- `timedelta(minutes=_ERROR_RETRY_MINUTES)`. -/
def errorRetry : ℤ := 30 * 60 * 1000000

def maxConsecutiveFailures : ℕ := 5

/-- What comes of a symbol: it has no CIK, the fetch fails, or EDGAR names its reports. -/
inductive Ergebnis where
  | ohneCik
  | fehlgeschlagen
  | gelesen (texts : List String)
deriving DecidableEq, Repr

def Ergebnis.eintrag : Ergebnis → Eintrag
  | ohneCik => .dates []
  | fehlgeschlagen => .error
  | gelesen texts => .dates texts

theorem Ergebnis.eintrag_eq_error {e : Ergebnis} : e.eintrag = .error ↔ e = .fehlgeschlagen := by
  cases e <;> simp [Ergebnis.eintrag]

/-- A call, with what `resolve_cik` and EDGAR would make of each symbol, and whether the
cache can be written at its end. -/
structure Anfrage where
  symbols : List String
  now : ℤ
  ergebnis : String → Ergebnis
  geschrieben : Bool

/-- The number of fetches, and what the call has tried. -/
structure Antwort where
  fetched : ℕ
  versuche : List (String × Ergebnis)

/-- The loop over the symbols. -/
structure Fortgang where
  entries : Dict String Eintrag
  errorsRetriedAt : Option ℤ
  fetched : ℕ
  consecutiveFailures : ℕ

def Fortgang.nach (now : ℤ) (l : Fortgang) (sym : String) (e : Ergebnis) : Fortgang :=
  match e with
  | .ohneCik => { l with entries := l.entries.set sym e.eintrag }
  | .fehlgeschlagen =>
      ⟨l.entries.set sym e.eintrag, some (l.errorsRetriedAt.getD now), l.fetched + 1,
        l.consecutiveFailures + 1⟩
  | .gelesen _ => ⟨l.entries.set sym e.eintrag, l.errorsRetriedAt, l.fetched + 1, 0⟩

def abruf (a : Anfrage) : List String → Fortgang → Fortgang × List (String × Ergebnis)
  | [], l => (l, [])
  | sym :: todo, l =>
      if a.ergebnis sym = .fehlgeschlagen ∧
          maxConsecutiveFailures ≤ (l.nach a.now sym (a.ergebnis sym)).consecutiveFailures then
        (l.nach a.now sym (a.ergebnis sym), [(sym, a.ergebnis sym)])
      else
        ((abruf a todo (l.nach a.now sym (a.ergebnis sym))).1,
          (sym, a.ergebnis sym) :: (abruf a todo (l.nach a.now sym (a.ergebnis sym))).2)

/-- Whether failed fetches may be tried again. -/
def retryErrors (now : ℤ) : Option ℤ → Bool
  | none => true
  | some lastRetry => errorRetry ≤ now - lastRetry

section

variable (U : UpperCase)

/-- `sorted({str(s).upper().strip() for s in symbols if s})`. -/
def wanted (symbols : List String) : List String :=
  ((symbols.filter (· ≠ "")).map U.norm).dedup.insertionSort (· ≤ ·)

/-- The cache a call begins with; a new day begins with an empty one. -/
def blob (c : Cache) (a : Anfrage) : Cache :=
  if c.computedOn = some (a.now / tag) then c else ⟨some (a.now / tag), none, .empty⟩

def todo (b : Cache) (a : Anfrage) : List String :=
  (wanted U a.symbols).filter fun sym =>
    match b.entries.get? sym with
    | none => true
    | some e => retryErrors a.now b.errorsRetriedAt && decide (e = .error)

def ensureFreshEarningsCache (c : Cache) (a : Anfrage) : Cache × Antwort :=
  let b := blob c a
  if todo U b a = [] then (c, ⟨0, []⟩)
  else
    let errorsRetriedAt :=
      if ∃ sym ∈ todo U b a, b.entries.get? sym = some .error then some a.now
      else b.errorsRetriedAt
    let l := abruf a (todo U b a) ⟨b.entries, errorsRetriedAt, 0, 0⟩
    (if a.geschrieben then ⟨b.computedOn, l.1.errorsRetriedAt, l.1.entries⟩ else c,
      ⟨l.1.fetched, l.2⟩)

end

/-! ## The loop -/

section

variable {a : Anfrage} {ss : List String} {l : Fortgang} {s : String}

@[simp] theorem Fortgang.entries_nach (now : ℤ) (l : Fortgang) (s : String) (e : Ergebnis) :
    (l.nach now s e).entries = l.entries.set s e.eintrag := by
  cases e <;> rfl

/-- The loop tries the symbols in their order. -/
theorem abruf_prefix (a : Anfrage) (ss : List String) (l : Fortgang) :
    (abruf a ss l).2.map Prod.fst <+: ss := by
  induction ss generalizing l with
  | nil => exact List.prefix_rfl
  | cons s ss ih =>
      rw [abruf]
      split
      next => simp
      next => simpa using ih _

theorem abruf_ergebnis (a : Anfrage) (ss : List String) (l : Fortgang) :
    ∀ v ∈ (abruf a ss l).2, v.2 = a.ergebnis v.1 := by
  induction ss generalizing l with
  | nil => simp [abruf]
  | cons s ss ih =>
      rw [abruf]
      split
      next => simp
      next =>
        intro v hv
        rcases List.mem_cons.mp hv with rfl | hv
        · rfl
        · exact ih _ v hv

/-- What was tried has its result, and everything else keeps its entry. -/
theorem get?_abruf (s : String) : (abruf a ss l).1.entries.get? s =
    if s ∈ (abruf a ss l).2.map Prod.fst then some (a.ergebnis s).eintrag
    else l.entries.get? s := by
  induction ss generalizing l with
  | nil => simp [abruf]
  | cons s' ss ih =>
      rw [abruf]
      split
      next =>
        by_cases hs : s = s'
        · simp [hs]
        · simp [hs, Ne.symm hs]
      next =>
        rw [ih, Fortgang.entries_nach, Dict.get?_set, List.map_cons]
        by_cases hs : s = s'
        · simp [hs]
        · rw [if_neg (Ne.symm hs)]
          simp only [List.mem_cons, hs, false_or]

/-- One turn keeps a noted retry, or notes the time of the call. -/
theorem Fortgang.errorsRetriedAt_nach (now : ℤ) (l : Fortgang) (s : String) (e : Ergebnis) :
    (l.nach now s e).errorsRetriedAt = l.errorsRetriedAt ∨
      l.errorsRetriedAt = none ∧ (l.nach now s e).errorsRetriedAt = some now := by
  cases e with
  | ohneCik => exact .inl rfl
  | fehlgeschlagen =>
      cases hl : l.errorsRetriedAt with
      | none => exact .inr ⟨rfl, by simp [Fortgang.nach, hl]⟩
      | some t => exact .inl (by simp [Fortgang.nach, hl])
  | gelesen texts => exact .inl rfl

theorem errorsRetriedAt_abruf (a : Anfrage) (ss : List String) (l : Fortgang) :
    (abruf a ss l).1.errorsRetriedAt = l.errorsRetriedAt ∨
      l.errorsRetriedAt = none ∧ (abruf a ss l).1.errorsRetriedAt = some a.now := by
  induction ss generalizing l with
  | nil => exact .inl rfl
  | cons s ss ih =>
      have hturn := l.errorsRetriedAt_nach a.now s (a.ergebnis s)
      rw [abruf]
      split
      next => exact hturn
      next =>
        rcases ih (l.nach a.now s (a.ergebnis s)) with hrest | ⟨hnone, hnow⟩
        · rwa [hrest]
        · exact .inr ⟨hturn.elim (fun h => h.symm.trans hnone) And.left, hnow⟩

/-! ### Failures in a row -/

/-- Which fetches failed, without the symbols that are not fetched. -/
def fehlschlaege (vs : List (String × Ergebnis)) : List Bool :=
  (vs.filter fun v => v.2 ≠ .ohneCik).map fun v => decide (v.2 = .fehlgeschlagen)

@[simp] theorem fehlschlaege_nil : fehlschlaege [] = [] := rfl

theorem length_fehlschlaege (a : Anfrage) (ss : List String) (l : Fortgang) :
    (abruf a ss l).1.fetched = l.fetched + (fehlschlaege (abruf a ss l).2).length := by
  induction ss generalizing l with
  | nil => rfl
  | cons s ss ih =>
      rw [abruf]
      split
      next hfail => simp [hfail.1, fehlschlaege, Fortgang.nach]
      next =>
        rw [ih]
        cases he : a.ergebnis s with
        | ohneCik => simp [fehlschlaege, Fortgang.nach]
        | fehlgeschlagen =>
            simp [fehlschlaege, Fortgang.nach]
            omega
        | gelesen texts =>
            simp [fehlschlaege, Fortgang.nach]
            omega

theorem fehlschlaege_cons (v : String × Ergebnis) (vs : List (String × Ergebnis)) :
    fehlschlaege (v :: vs) = match v.2 with
      | .ohneCik => fehlschlaege vs
      | .fehlgeschlagen => true :: fehlschlaege vs
      | .gelesen _ => false :: fehlschlaege vs := by
  obtain ⟨s, e⟩ := v
  cases e with
  | ohneCik => simp [fehlschlaege]
  | fehlgeschlagen => simp [fehlschlaege]
  | gelesen texts => simp [fehlschlaege]

def HoechstensFuenf (bs : List Bool) : Prop :=
  ¬List.replicate (maxConsecutiveFailures + 1) true <:+: bs

theorem hoechstensFuenf_replicate {n : ℕ} (h : n ≤ maxConsecutiveFailures) :
    HoechstensFuenf (List.replicate n true) := by
  intro hinfix
  have hle := hinfix.length_le
  rw [List.length_replicate, List.length_replicate] at hle
  omega

theorem HoechstensFuenf.append_false {n : ℕ} {bs : List Bool} (hn : n ≤ maxConsecutiveFailures)
    (h : HoechstensFuenf bs) : HoechstensFuenf (List.replicate n true ++ false :: bs) := by
  intro hinfix
  rcases infix_of_infix_append_cons (by simp) hinfix with hleft | hright
  · exact hoechstensFuenf_replicate hn hleft
  · exact h hright

/-- No more than five fetches in a row fail, and a call that does not try everything ends
with five that do. -/
theorem abruf_fehlschlaege (h : l.consecutiveFailures < maxConsecutiveFailures) :
    HoechstensFuenf
        (List.replicate l.consecutiveFailures true ++ fehlschlaege (abruf a ss l).2) ∧
      ((abruf a ss l).2.map Prod.fst = ss ∨ List.replicate maxConsecutiveFailures true <:+
        List.replicate l.consecutiveFailures true ++ fehlschlaege (abruf a ss l).2) := by
  induction ss generalizing l with
  | nil =>
      refine ⟨?_, .inl rfl⟩
      rw [abruf, fehlschlaege_nil, List.append_nil]
      exact hoechstensFuenf_replicate h.le
  | cons s ss ih =>
      rw [abruf]
      cases he : a.ergebnis s with
      | ohneCik =>
          obtain ⟨hrow, hend⟩ := ih (l := l.nach a.now s .ohneCik) h
          rw [if_neg (by simp), fehlschlaege_cons]
          exact ⟨hrow, hend.imp (fun heq => by rw [List.map_cons, heq]) id⟩
      | fehlgeschlagen =>
          have hgrow : ∀ bs, List.replicate l.consecutiveFailures true ++ true :: bs =
              List.replicate (l.consecutiveFailures + 1) true ++ bs := fun bs => by
            rw [List.replicate_succ', List.append_assoc, List.singleton_append]
          by_cases hfifth : maxConsecutiveFailures ≤ l.consecutiveFailures + 1
          · have hn : l.consecutiveFailures + 1 = maxConsecutiveFailures := by omega
            rw [if_pos ⟨rfl, hfifth⟩, fehlschlaege_cons]
            simp only [fehlschlaege_nil]
            rw [hgrow, hn, List.append_nil]
            exact ⟨hoechstensFuenf_replicate le_rfl, .inr List.suffix_rfl⟩
          · obtain ⟨hrow, hend⟩ := ih (l := l.nach a.now s .fehlgeschlagen) (not_le.mp hfifth)
            rw [if_neg fun hlast => hfifth hlast.2, fehlschlaege_cons]
            simp only
            rw [hgrow]
            exact ⟨hrow, hend.imp (fun heq => by rw [List.map_cons, heq]) id⟩
      | gelesen texts =>
          obtain ⟨hrow, hend⟩ := ih (l := l.nach a.now s (.gelesen texts))
            (Nat.succ_pos _)
          rw [if_neg (by simp), fehlschlaege_cons]
          simp only
          refine ⟨HoechstensFuenf.append_false h.le hrow,
            hend.imp (fun heq => by rw [List.map_cons, heq]) fun hsuf => ?_⟩
          exact (hsuf.trans (List.suffix_cons false _)).trans (List.suffix_append _ _)

end

/-! ## Runs -/

/-- The attempts for a symbol on a day in the calls whose cache was written, with their
times. -/
def versucheAm (vergangen : List (Anfrage × Antwort)) (d : ℤ) (s : String) :
    List (ℤ × Ergebnis) :=
  vergangen.flatMap fun p =>
    if p.1.geschrieben = true ∧ p.1.now / tag = d then
      (p.2.versuche.filter fun v => v.1 = s).map fun v => (p.1.now, v.2)
    else []

/-- A symbol is tried until it succeeds, and from the second attempt on at intervals. -/
structure Diszipliniert (vs : List (ℤ × Ergebnis)) : Prop where
  fehlgeschlagen : ∀ v ∈ vs.dropLast, v.2 = .fehlgeschlagen
  abstand : vs.tail.Pairwise fun v w => v.1 + errorRetry ≤ w.1

/-- How the cache and the calls of the past belong together. -/
structure Stand (c : Cache) (vergangen : List (Anfrage × Antwort)) (jetzt : ℤ) : Prop where
  tagDesCaches : ∀ d, c.computedOn = some d → d ≤ jetzt / tag
  frueher : ∀ d s, versucheAm vergangen d s ≠ [] → ∃ d', c.computedOn = some d' ∧ d ≤ d'
  leer : c.computedOn = none → ∀ s, c.entries.get? s = none
  eintrag : ∀ d, c.computedOn = some d → ∀ s, c.entries.get? s =
    (versucheAm vergangen d s).getLast?.map fun v => v.2.eintrag
  zeiten : ∀ d s, ∀ v ∈ versucheAm vergangen d s, v.1 ≤ jetzt
  wiederholt : ∀ d, c.computedOn = some d → ∀ s, 2 ≤ (versucheAm vergangen d s).length →
    ∃ t, c.errorsRetriedAt = some t ∧ ∀ v ∈ versucheAm vergangen d s, v.1 ≤ t
  diszipliniert : ∀ d s, Diszipliniert (versucheAm vergangen d s)

section

variable {U : UpperCase} {c : Cache} {a : Anfrage} {vergangen : List (Anfrage × Antwort)}
  {jetzt d : ℤ} {s : String}

theorem stand_leer (jetzt : ℤ) : Stand .leer [] jetzt where
  tagDesCaches := by simp [Cache.leer]
  frueher := by simp [versucheAm]
  leer := by simp [Cache.leer]
  eintrag := by simp [Cache.leer]
  zeiten := by simp [versucheAm]
  wiederholt := by simp [versucheAm]
  diszipliniert _ _ := ⟨by simp [versucheAm], List.Pairwise.nil⟩

theorem Diszipliniert.concat {vs : List (ℤ × Ergebnis)} (h : Diszipliniert vs) (v : ℤ × Ergebnis)
    (hlast : ∀ w ∈ vs.getLast?, w.2 = .fehlgeschlagen)
    (habstand : 2 ≤ vs.length → ∀ w ∈ vs, w.1 + errorRetry ≤ v.1) : Diszipliniert (vs ++ [v]) := by
  refine ⟨?_, ?_⟩
  · rw [List.dropLast_concat]
    intro w hw
    rcases List.eq_nil_or_concat' vs with rfl | ⟨vs', z, rfl⟩
    · cases hw
    · rcases List.mem_append.mp hw with hw | hw
      · exact h.fehlgeschlagen w (by rwa [List.dropLast_concat])
      · rw [List.mem_singleton.mp hw]
        exact hlast z (by simp)
  · cases vs with
    | nil => exact List.Pairwise.nil
    | cons w vs =>
        rw [List.cons_append, List.tail_cons]
        refine List.pairwise_append.mpr ⟨h.abstand, List.pairwise_singleton _ _, ?_⟩
        intro x hx y hy
        rw [List.mem_singleton.mp hy]
        have hlen : 0 < vs.length := List.length_pos_of_mem hx
        exact habstand (by rw [List.length_cons]; omega) x (List.mem_cons_of_mem w hx)

theorem versucheAm_concat (p : Anfrage × Antwort) : versucheAm (vergangen ++ [p]) d s =
    versucheAm vergangen d s ++
      if p.1.geschrieben = true ∧ p.1.now / tag = d then
        (p.2.versuche.filter fun v => v.1 = s).map fun v => (p.1.now, v.2)
      else [] := by
  simp [versucheAm]

/-- A call that writes nothing leaves everything as it is. -/
theorem Stand.ohneSchreiben (h : Stand c vergangen jetzt) (hnow : jetzt ≤ a.now) {o : Antwort}
    (ho : a.geschrieben = false ∨ o.versuche = []) : Stand c (vergangen ++ [(a, o)]) a.now := by
  have hsame : ∀ d s, versucheAm (vergangen ++ [(a, o)]) d s = versucheAm vergangen d s := by
    intro d s
    rw [versucheAm_concat]
    rcases ho with hkeep | hnil
    · simp [hkeep]
    · simp [hnil]
  refine ⟨fun d hd => (h.tagDesCaches d hd).trans (Int.ediv_le_ediv (by decide) hnow), ?_, h.leer,
    ?_, ?_, ?_, ?_⟩
  · intro d s
    rw [hsame]
    exact h.frueher d s
  · intro d hd s
    rw [hsame]
    exact h.eintrag d hd s
  · intro d s
    rw [hsame]
    exact fun v hv => (h.zeiten d s v hv).trans hnow
  · intro d hd s
    rw [hsame]
    exact h.wiederholt d hd s
  · intro d s
    rw [hsame]
    exact h.diszipliniert d s

/-- What the cache of a call has, and what it knows of retries. -/
theorem Stand.blob (h : Stand c vergangen jetzt) (hnow : jetzt ≤ a.now) :
    (blob c a).computedOn = some (a.now / tag) ∧
      (∀ s, (blob c a).entries.get? s =
        (versucheAm vergangen (a.now / tag) s).getLast?.map fun v => v.2.eintrag) ∧
      (∀ d s, versucheAm vergangen d s ≠ [] → d ≤ a.now / tag) ∧
      ∀ s, 2 ≤ (versucheAm vergangen (a.now / tag) s).length → ∃ t,
        (Quartalszahlen.blob c a).errorsRetriedAt = some t ∧
          ∀ v ∈ versucheAm vergangen (a.now / tag) s, v.1 ≤ t := by
  have hle : jetzt / tag ≤ a.now / tag := Int.ediv_le_ediv (by decide) hnow
  have hpast : ∀ d s, versucheAm vergangen d s ≠ [] → d ≤ a.now / tag := fun d s hne => by
    obtain ⟨d', hd', hdd⟩ := h.frueher d s hne
    exact hdd.trans ((h.tagDesCaches d' hd').trans hle)
  rw [Quartalszahlen.blob]
  split
  next hday => exact ⟨hday, h.eintrag _ hday, hpast, h.wiederholt _ hday⟩
  next hday =>
    have hnone : ∀ s, versucheAm vergangen (a.now / tag) s = [] := by
      intro s
      by_contra hne
      obtain ⟨d', hd', hdd⟩ := h.frueher _ s hne
      have heq : d' = a.now / tag := le_antisymm ((h.tagDesCaches d' hd').trans hle) hdd
      exact hday (by rw [hd', heq])
    refine ⟨rfl, fun s => by simp [hnone s], hpast, fun s hlen => ?_⟩
    rw [hnone s] at hlen
    simp at hlen

/-- What is to be tried has no entry, or a failed one that may be tried again. -/
theorem mem_todo {b : Cache} (h : s ∈ todo U b a) : b.entries.get? s = none ∨
    retryErrors a.now b.errorsRetriedAt = true ∧ b.entries.get? s = some .error := by
  have htry := (List.mem_filter.mp h).2
  split at htry
  next hnone => exact .inl hnone
  next e he =>
    rw [Bool.and_eq_true, decide_eq_true_eq] at htry
    exact .inr ⟨htry.1, by rw [he, htry.2]⟩

theorem nodup_todo (U : UpperCase) (b : Cache) (a : Anfrage) : (todo U b a).Nodup :=
  List.Nodup.filter _
    ((List.perm_insertionSort _ _).nodup_iff.mpr (List.nodup_dedup _))

/-- A symbol is tried once in a call at most. -/
theorem filter_versuche {vs : List (String × Ergebnis)} (hn : (vs.map Prod.fst).Nodup)
    (he : ∀ v ∈ vs, v.2 = a.ergebnis v.1) (s : String) : vs.filter (fun v => v.1 = s) =
      if s ∈ vs.map Prod.fst then [(s, a.ergebnis s)] else [] := by
  induction vs with
  | nil => rfl
  | cons v vs ih =>
      obtain ⟨hv, hn'⟩ := List.nodup_cons.mp hn
      have hrest := ih hn' fun w hw => he w (List.mem_cons_of_mem v hw)
      by_cases hs : v.1 = s
      · subst hs
        rw [List.filter_cons_of_pos (by simp), hrest, if_neg hv, if_pos (by simp),
          ← he v List.mem_cons_self]
      · rw [List.filter_cons_of_neg (by simpa using hs), hrest, List.map_cons]
        simp only [List.mem_cons, Ne.symm hs, false_or]

theorem Stand.mitSchreiben (h : Stand c vergangen jetzt) (hnow : jetzt ≤ a.now)
    (hkeep : a.geschrieben = true) (hne : todo U (Quartalszahlen.blob c a) a ≠ []) :
    Stand (ensureFreshEarningsCache U c a).1
      (vergangen ++ [(a, (ensureFreshEarningsCache U c a).2)]) a.now := by
  obtain ⟨hday, hentry, hpast, htwice⟩ := h.blob hnow
  generalize hb : Quartalszahlen.blob c a = b at hday hentry htwice hne
  rw [ensureFreshEarningsCache, hb]
  simp only [if_neg hne, hkeep, if_true]
  -- the time of a retry that the loop begins with
  generalize hretry : (if ∃ sym ∈ todo U b a, b.entries.get? sym = some .error then some a.now
    else b.errorsRetriedAt) = retriedAt
  generalize hl : abruf a (todo U b a) ⟨b.entries, retriedAt, 0, 0⟩ = l
  have hkeys : l.2.map Prod.fst <+: todo U b a := hl ▸ abruf_prefix a _ _
  have hresult : ∀ v ∈ l.2, v.2 = a.ergebnis v.1 := hl ▸ abruf_ergebnis a _ _
  have hfinal : ∀ s, l.1.entries.get? s = if s ∈ l.2.map Prod.fst then
      some (a.ergebnis s).eintrag else b.entries.get? s := fun s => by
    rw [← hl]
    exact get?_abruf s
  have hnoted : ∀ t, retriedAt = some t → l.1.errorsRetriedAt = some t := fun t ht => by
    have hloop := errorsRetriedAt_abruf a (todo U b a) ⟨b.entries, retriedAt, 0, 0⟩
    rw [hl] at hloop
    rcases hloop with heq | ⟨hnone, -⟩
    · rw [heq, ← ht]
    · exact absurd (ht.symm.trans hnone) (Option.some_ne_none t)
  have hsplit : ∀ d s, versucheAm (vergangen ++ [(a, ⟨l.1.fetched, l.2⟩)]) d s =
      versucheAm vergangen d s ++
        if a.now / tag = d ∧ s ∈ l.2.map Prod.fst then [(a.now, a.ergebnis s)] else [] := by
    intro d s
    rw [versucheAm_concat]
    simp only [hkeep, true_and]
    rw [filter_versuche (hkeys.sublist.nodup (nodup_todo U b a)) hresult s]
    by_cases hd : a.now / tag = d
    · by_cases hs : s ∈ l.2.map Prod.fst
      · rw [if_pos hd, if_pos hs, if_pos ⟨hd, hs⟩]
        rfl
      · rw [if_pos hd, if_neg hs, if_neg fun hboth => hs hboth.2]
        rfl
    · rw [if_neg hd, if_neg fun hboth => hd hboth.1]
  -- a symbol that was tried before is tried again because its last fetch failed
  have hagain : ∀ s ∈ l.2.map Prod.fst, versucheAm vergangen (a.now / tag) s ≠ [] →
      retriedAt = some a.now ∧ retryErrors a.now b.errorsRetriedAt = true ∧
        ∀ w ∈ (versucheAm vergangen (a.now / tag) s).getLast?, w.2 = .fehlgeschlagen := by
    intro s hs hold
    have hmem := hkeys.subset hs
    have hlast := hentry s
    rw [List.getLast?_eq_some_getLast hold, Option.map_some] at hlast
    rcases mem_todo hmem with hnone | ⟨hmay, herror⟩
    · rw [hnone] at hlast
      cases hlast
    · refine ⟨by rw [← hretry, if_pos ⟨s, hmem, herror⟩], hmay, fun w hw => ?_⟩
      rw [List.getLast?_eq_some_getLast hold] at hw
      obtain rfl := Option.some.inj hw
      rw [herror] at hlast
      exact Ergebnis.eintrag_eq_error.mp (Option.some.inj hlast).symm
  refine ⟨?_, ?_, ?_, ?_, ?_, ?_, ?_⟩
  · intro d hd
    exact (Option.some.inj (hday.symm.trans hd)).ge
  · intro d s hsome
    refine ⟨a.now / tag, hday, ?_⟩
    rw [hsplit] at hsome
    by_cases hold : versucheAm vergangen d s = []
    · rw [hold, List.nil_append] at hsome
      split at hsome
      next hboth => exact hboth.1.ge
      next => exact absurd rfl hsome
    · exact hpast d s hold
  · intro hnone
    exact absurd (hday.symm.trans hnone) (Option.some_ne_none _)
  · intro d hd s
    obtain rfl := Option.some.inj (hday.symm.trans hd)
    rw [hsplit, hfinal]
    by_cases hs : s ∈ l.2.map Prod.fst
    · rw [if_pos hs, if_pos ⟨rfl, hs⟩]
      simp
    · rw [if_neg hs, if_neg fun hboth => hs hboth.2, List.append_nil, hentry]
  · intro d s v hv
    rw [hsplit] at hv
    rcases List.mem_append.mp hv with hold | hnew
    · exact (h.zeiten d s v hold).trans hnow
    · split at hnew
      next => rw [List.mem_singleton.mp hnew]
      next => cases hnew
  · intro d hd s htwo
    obtain rfl := Option.some.inj (hday.symm.trans hd)
    rw [hsplit] at htwo ⊢
    have hbefore : ∀ v ∈ versucheAm vergangen (a.now / tag) s, v.1 ≤ a.now := fun v hv =>
      (h.zeiten _ s v hv).trans hnow
    by_cases hs : s ∈ l.2.map Prod.fst
    · rw [if_pos ⟨rfl, hs⟩] at htwo ⊢
      have hold : versucheAm vergangen (a.now / tag) s ≠ [] := by
        rintro hnil
        simp [hnil] at htwo
      refine ⟨a.now, hnoted _ (hagain s hs hold).1, fun v hv => ?_⟩
      rcases List.mem_append.mp hv with hv | hv
      · exact hbefore v hv
      · rw [List.mem_singleton.mp hv]
    · rw [if_neg fun hboth => hs hboth.2, List.append_nil] at htwo ⊢
      obtain ⟨t, ht, hall⟩ := htwice s htwo
      by_cases hany : ∃ sym ∈ todo U b a, b.entries.get? sym = some .error
      · exact ⟨a.now, hnoted _ (by rw [← hretry, if_pos hany]), hbefore⟩
      · exact ⟨t, hnoted _ (by rw [← hretry, if_neg hany, ht]), hall⟩
  · intro d s
    rw [hsplit]
    split
    next hboth =>
      obtain ⟨rfl, hs⟩ := hboth
      refine (h.diszipliniert _ s).concat _ (fun w hw => ?_) fun htwo w hw => ?_
      · exact (hagain s hs (by rintro hnil; simp [hnil] at hw)).2.2 w hw
      · obtain ⟨t, ht, hall⟩ := htwice s htwo
        have hmay := (hagain s hs (List.ne_nil_of_mem hw)).2.1
        rw [ht, retryErrors, decide_eq_true_eq] at hmay
        have hle := hall w hw
        show w.1 + errorRetry ≤ a.now
        omega
    next =>
      rw [List.append_nil]
      exact h.diszipliniert d s

theorem Stand.schritt (h : Stand c vergangen jetzt) (hnow : jetzt ≤ a.now) :
    Stand (ensureFreshEarningsCache U c a).1
      (vergangen ++ [(a, (ensureFreshEarningsCache U c a).2)]) a.now := by
  by_cases hnil : todo U (Quartalszahlen.blob c a) a = []
  · rw [ensureFreshEarningsCache]
    simp only [if_pos hnil]
    exact h.ohneSchreiben hnow (.inr rfl)
  · cases hkeep : a.geschrieben with
    | true => exact h.mitSchreiben hnow hkeep hnil
    | false =>
        rw [ensureFreshEarningsCache]
        simp only [if_neg hnil, hkeep]
        exact h.ohneSchreiben hnow (.inl hkeep)

theorem Stand.mono (h : Stand c vergangen jetzt) {t : ℤ} (ht : jetzt ≤ t) :
    Stand c vergangen t where
  tagDesCaches d hd := (h.tagDesCaches d hd).trans (Int.ediv_le_ediv (by decide) ht)
  frueher := h.frueher
  leer := h.leer
  eintrag := h.eintrag
  zeiten d s v hv := (h.zeiten d s v hv).trans ht
  wiederholt := h.wiederholt
  diszipliniert := h.diszipliniert

/-- The state after a run whose clock does not go back. -/
theorem stand_lauf {anfragen : List Anfrage} (hzeit : (anfragen.map Anfrage.now).Pairwise (· ≤ ·))
    {t : ℤ} (ht : ∀ a ∈ anfragen, a.now ≤ t) :
    Stand (feed (ensureFreshEarningsCache U) .leer anfragen).1
      (transcript (ensureFreshEarningsCache U) .leer anfragen) t := by
  induction anfragen using List.reverseRecOn generalizing t with
  | nil => exact stand_leer t
  | append_singleton vor a ih =>
      rw [List.map_append, List.pairwise_append] at hzeit
      have hbefore : ∀ b ∈ vor, b.now ≤ a.now := fun b hb =>
        hzeit.2.2 b.now (List.mem_map_of_mem hb) a.now (by simp)
      have hstep := (ih hzeit.1 hbefore).schritt (U := U) (le_refl a.now)
      rw [feed_append, transcript_append]
      exact hstep.mono (ht a (by simp))

theorem exists_stand_lauf {anfragen : List Anfrage}
    (hzeit : (anfragen.map Anfrage.now).Pairwise (· ≤ ·)) :
    ∃ t, Stand (feed (ensureFreshEarningsCache U) .leer anfragen).1
      (transcript (ensureFreshEarningsCache U) .leer anfragen) t := by
  obtain ⟨t, ht⟩ := (anfragen.map Anfrage.now).toFinset.exists_le
  exact ⟨t, stand_lauf hzeit fun a ha => ht _ (List.mem_toFinset.mpr (List.mem_map_of_mem ha))⟩

/-- The last attempt for a symbol on the day of the cache. -/
def letzterVersuch (vergangen : List (Anfrage × Antwort)) (c : Cache) (s : String) :
    Option Ergebnis :=
  c.computedOn.bind fun d => (versucheAm vergangen d s).getLast?.map Prod.snd

/-- The entry of a symbol is what its last attempt came to. -/
theorem Stand.get?_entries (h : Stand c vergangen jetzt) (s : String) :
    c.entries.get? s = (letzterVersuch vergangen c s).map Ergebnis.eintrag := by
  rw [letzterVersuch]
  cases hday : c.computedOn with
  | none => exact h.leer hday s
  | some d =>
      rw [h.eintrag d hday s, Option.bind_some, Option.map_map]
      rfl

end

section

variable {U : UpperCase} {anfragen : List Anfrage} {fromisoformat : String → Option Date}
  {cfg : Konfig}

/-- After any run the guard judges by the last attempt of the day of the cache. -/
theorem sperre_nach_abruf (hzeit : (anfragen.map Anfrage.now).Pairwise (· ≤ ·))
    (henabled : cfg.enabled = true) (symbol : String) (heute : Date) :
    let c := (feed (ensureFreshEarningsCache U) .leer anfragen).1
    let letzter := letzterVersuch (transcript (ensureFreshEarningsCache U) .leer anfragen) c symbol
    let veto := earningsGuardVeto fromisoformat cfg c symbol "BUY" heute
    (veto = none ∨ veto = some ("blocked:earnings_data_missing", dataMissing) ∨
        ∃ reason, veto = some ("blocked:earnings", reason)) ∧
      (veto = some ("blocked:earnings_data_missing", dataMissing) ↔
        letzter = some .fehlgeschlagen) ∧
      ((∃ reason, veto = some ("blocked:earnings", reason)) ↔ ∃ texts reportDates est,
        letzter = some (.gelesen texts) ∧ texts.mapM fromisoformat = some reportDates ∧
          schaetzung cfg reportDates = .ok est ∧ Sperrtag cfg reportDates est heute) := by
  intro c letzter veto
  obtain ⟨t, hstand⟩ := exists_stand_lauf (U := U) hzeit
  have hentry := hstand.get?_entries symbol
  change c.entries.get? symbol = letzter.map Ergebnis.eintrag at hentry
  cases hlast : letzter with
  | none =>
      rw [hlast] at hentry
      have hcold : veto = none := earningsGuardVeto_cold hentry
      simp [hcold]
  | some e =>
      rw [hlast, Option.map_some] at hentry
      cases e with
      | fehlgeschlagen =>
          have herror : veto = some ("blocked:earnings_data_missing", dataMissing) :=
            earningsGuardVeto_error henabled hentry
          simp [herror]
      | ohneCik =>
          obtain ⟨-, hday⟩ := @earningsGuardVeto_fetched fromisoformat cfg c symbol heute
            henabled _ hentry
          have hnone : veto = none := by
            by_contra hne
            obtain ⟨reportDates, est, hdates, hest, hsperr⟩ := hday.mp hne
            obtain rfl : reportDates = [] := (Option.some.inj hdates).symm
            exact not_sperrtag_nil hest hsperr
          simp [hnone]
      | gelesen texts =>
          obtain ⟨htag, hday⟩ := @earningsGuardVeto_fetched fromisoformat cfg c symbol heute
            henabled _ hentry
          change veto = none ∨ ∃ reason, veto = some ("blocked:earnings", reason) at htag
          change veto ≠ none ↔ _ at hday
          have hiff : (∃ reason, veto = some ("blocked:earnings", reason)) ↔ veto ≠ none := by
            rcases htag with hnone | ⟨reason, hreason⟩
            · simp [hnone]
            · simp [hreason]
          refine ⟨htag.imp id .inr, iff_of_false (fun hveto => ?_) (by simp), ?_⟩
          · rcases htag with hnone | ⟨reason, hreason⟩
            · rw [hnone] at hveto
              cases hveto
            · rw [hreason] at hveto
              simp at hveto
          · rw [hiff, hday]
            simp

/-- A failed fetch holds purchases back; the second call is too early to try again. -/
theorem sperre_nach_abruf_zu_frueh : earningsGuardVeto Date.fromisoformat ⟨true, 2, 0⟩
    (feed (ensureFreshEarningsCache .ascii) .leer
      [⟨["aapl"], 0, fun _ => .fehlgeschlagen, true⟩,
        ⟨["AAPL "], 10, fun _ => .gelesen [], true⟩]).1 "AAPL" "BUY"
      ⟨2026, 8, 3, by decide, by decide, by decide, by decide, by decide, by decide⟩ =
    some ("blocked:earnings_data_missing", dataMissing) :=
  (@sperre_nach_abruf .ascii [⟨["aapl"], 0, fun _ => .fehlgeschlagen, true⟩,
    ⟨["AAPL "], 10, fun _ => .gelesen [], true⟩] Date.fromisoformat ⟨true, 2, 0⟩ (by decide) rfl
      "AAPL" _).2.1.mpr (by decide +kernel)

/-- The step from a call to its answer. -/
theorem ensureFreshEarningsCache_antwort (U : UpperCase) (c : Cache) (a : Anfrage) :
    (ensureFreshEarningsCache U c a).2.fetched =
        (fehlschlaege (ensureFreshEarningsCache U c a).2.versuche).length ∧
      HoechstensFuenf (fehlschlaege (ensureFreshEarningsCache U c a).2.versuche) := by
  rw [ensureFreshEarningsCache]
  by_cases hnil : todo U (blob c a) a = []
  · simp only [if_pos hnil]
    exact ⟨rfl, hoechstensFuenf_replicate (Nat.zero_le _)⟩
  · simp only [if_neg hnil]
    refine ⟨?_, ?_⟩
    · rw [length_fehlschlaege, Nat.zero_add]
    · exact (abruf_fehlschlaege (l := ⟨_, _, 0, 0⟩) (show 0 < maxConsecutiveFailures by decide)).1

/-- A symbol is fetched on a day until it succeeds and not again, from the second attempt on
with half an hour between them, and in a call no more than five fetches in a row fail. -/
theorem abrufe_eines_tages (hzeit : (anfragen.map Anfrage.now).Pairwise (· ≤ ·)) (d : ℤ)
    (s : String) :
    let vergangen := transcript (ensureFreshEarningsCache U) .leer anfragen
    (∀ v ∈ (versucheAm vergangen d s).dropLast, v.2 = .fehlgeschlagen) ∧
      ((versucheAm vergangen d s).tail.Pairwise fun v w => v.1 + errorRetry ≤ w.1) ∧
      ∀ p ∈ vergangen, p.2.fetched = (fehlschlaege p.2.versuche).length ∧
        HoechstensFuenf (fehlschlaege p.2.versuche) := by
  intro vergangen
  obtain ⟨t, hstand⟩ := exists_stand_lauf (U := U) hzeit
  obtain ⟨hfail, habstand⟩ := hstand.diszipliniert d s
  refine ⟨hfail, habstand, fun p hp => ?_⟩
  obtain ⟨vor, nach, hsplit⟩ := List.append_of_mem hp
  obtain ⟨before, after, -, -, ho⟩ := transcript_eq_append (ensureFreshEarningsCache U) .leer
    (show transcript (ensureFreshEarningsCache U) .leer anfragen = vor ++ (p.1, p.2) :: nach
      from hsplit)
  rw [ho]
  exact ensureFreshEarningsCache_antwort U _ p.1

/-- A fetch that fails, is not tried again after ten minutes but after forty, and fails
again: two attempts for three calls. -/
theorem abrufe_eines_tages_zwei :
    (versucheAm (transcript (ensureFreshEarningsCache .ascii) .leer
      [⟨["AAPL"], 0, fun _ => .fehlgeschlagen, true⟩,
        ⟨["AAPL"], 10 * 60000000, fun _ => .fehlgeschlagen, true⟩,
        ⟨["AAPL"], 40 * 60000000, fun _ => .fehlgeschlagen, true⟩]) 0 "AAPL").map Prod.fst =
          [0, 40 * 60000000] ∧
      (versucheAm (transcript (ensureFreshEarningsCache .ascii) .leer
        [⟨["AAPL"], 0, fun _ => .fehlgeschlagen, true⟩,
          ⟨["AAPL"], 10 * 60000000, fun _ => .fehlgeschlagen, true⟩,
          ⟨["AAPL"], 40 * 60000000, fun _ => .fehlgeschlagen, true⟩]) 0 "AAPL").tail.Pairwise
            fun v w => v.1 + errorRetry ≤ w.1 :=
  ⟨by decide +kernel, (abrufe_eines_tages (by decide) 0 "AAPL").2.1⟩

end

end Quartalszahlen
