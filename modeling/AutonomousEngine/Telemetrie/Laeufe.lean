import AutonomousEngine.Telemetrie.Aufbewahrung

/-!
# What the store holds after a run

Whatever the order of starts and exports, the two files have lines of the run in the
order they were written in, none twice, and neither file is over the cap by more than one
batch (`begrenzt`).  A record is there as long as it is not too old and no more than the
cap has been written since (`bleibt_erhalten`): what is lost is old or has made room.
-/

namespace Telemetrie

open Basis

section

variable {loads : String → Lesung} {dumps : Record → String} {c : Konfig} {s : Ablage}
  {maxBytes batch : ℕ} {now : ℤ} {ls : List String}

/-- The lines of a file that may not be there. -/
def inhalt (d : Option Datei) : List String := (d.map Datei.zeilen).getD []

@[simp] theorem inhalt_none : inhalt none = [] := rfl

@[simp] theorem inhalt_some (d : Datei) : inhalt (some d) = d.zeilen := rfl

theorem inhalt_filter_sublist (p : Datei → Bool) (d : Option Datei) :
    (inhalt (d.filter p)).Sublist (inhalt d) := by
  cases d with
  | none => exact List.Sublist.refl _
  | some d =>
      rw [Option.filter_some]
      split
      next => exact List.Sublist.refl _
      next => exact List.nil_sublist _

/-- What pruning does: nothing, or it leaves an end of the lines that stay, and the other
file if it is not too old. -/
theorem pruneStore_cases (loads : String → Lesung) (c : Konfig) (now : ℤ) (s : Ablage) :
    pruneStore loads c now s = s ∨
      (pruneStore loads c now s).rotated =
          s.rotated.filter (fun d => decide (now - c.maxAge ≤ d.mtime)) ∧
        inhalt (pruneStore loads c now s).active =
          kappen c.maxBytes ((inhalt s.active).filter (bleibt loads (now - c.maxAge))) ∧
        ∀ d, (pruneStore loads c now s).active = some d → d.mtime = now := by
  rw [pruneStore]
  split
  next hactive =>
    refine .inr ⟨rfl, ?_, ?_⟩
    · rw [hactive]
      cases c.maxBytes <;> rfl
    · intro d hd
      simp [hactive] at hd
  next d hactive =>
    split
    next => exact .inl rfl
    next zeilen hzeilen =>
      obtain ⟨-, rfl⟩ := pruneLines_some hzeilen
      refine .inr ⟨rfl, ?_, ?_⟩
      · rw [hactive]
        rfl
      · intro d hd
        obtain rfl := Option.some.inj hd
        rfl

/-- What a rotation does: nothing, or it moves the file. -/
theorem rotateIfOverCap_cases (c : Konfig) (s : Ablage) :
    (rotateIfOverCap c s = s ∧ ∀ maxBytes, c.maxBytes = some maxBytes →
        weight blen (inhalt s.active) ≤ maxBytes) ∨
      ∃ maxBytes d, c.maxBytes = some maxBytes ∧ s.active = some d ∧
        maxBytes < weight blen d.zeilen ∧ rotateIfOverCap c s = ⟨none, some d⟩ := by
  rw [rotateIfOverCap]
  split
  next maxBytes d hmax hactive =>
    split
    next hle =>
      refine .inl ⟨rfl, fun m hm => ?_⟩
      obtain rfl : maxBytes = m := Option.some.inj (hmax.symm.trans hm)
      rw [hactive]
      exact hle
    next hover => exact .inr ⟨maxBytes, d, hmax, hactive, Nat.not_le.mp hover, rfl⟩
  next hno =>
    refine .inl ⟨rfl, fun m hm => ?_⟩
    cases hactive : s.active with
    | none => exact Nat.zero_le _
    | some d => exact absurd hactive (hno m d hm)

/-! ## Bounds -/

/-- The store within its bounds: its lines are lines of the run in their order, and a file
is over the cap by one batch at most. -/
structure Begrenzt (maxBytes batch : ℕ) (bisher : List String) (s : Ablage) : Prop where
  folge : s.zeilen.Sublist bisher
  zeile : ∀ ln ∈ s.zeilen, blen ln ≤ batch
  active : weight blen (inhalt s.active) ≤ maxBytes + batch
  rotated : weight blen (inhalt s.rotated) ≤ maxBytes + batch

theorem zeilen_eq (s : Ablage) : s.zeilen = inhalt s.rotated ++ inhalt s.active := rfl

theorem kappen_le (hmax : c.maxBytes = some maxBytes) (hz : ∀ ln ∈ ls, blen ln ≤ batch) :
    weight blen (kappen c.maxBytes ls) ≤ maxBytes + batch := by
  rw [hmax]
  show weight blen (fit blen maxBytes ls) ≤ maxBytes + batch
  rcases weight_fit_le blen maxBytes ls with hle | hone
  · omega
  · have hsub := (fit_suffix blen maxBytes ls).subset
    match hfit : fit blen maxBytes ls with
    | [] => exact Nat.zero_le _
    | [ln] =>
        have hln : blen ln ≤ batch := hz ln (hsub (by rw [hfit]; exact List.mem_cons_self))
        rw [weight_cons, weight_nil]
        omega
    | _ :: _ :: _ => simp [hfit] at hone

theorem Begrenzt.pruneStore {bisher : List String} (h : Begrenzt maxBytes batch bisher s)
    (hmax : c.maxBytes = some maxBytes) (now : ℤ) :
    Begrenzt maxBytes batch bisher (pruneStore loads c now s) := by
  rcases pruneStore_cases loads c now s with heq | ⟨hrotated, hactive, -⟩
  · rw [heq]
    exact h
  · have hrot : (inhalt (Telemetrie.pruneStore loads c now s).rotated).Sublist
        (inhalt s.rotated) := by
      rw [hrotated]
      exact inhalt_filter_sublist _ _
    have hact : (inhalt (Telemetrie.pruneStore loads c now s).active).Sublist
        (inhalt s.active) := by
      rw [hactive]
      exact (kappen_suffix _ _).sublist.trans List.filter_sublist
    have hall : (Telemetrie.pruneStore loads c now s).zeilen.Sublist s.zeilen := by
      rw [zeilen_eq, zeilen_eq]
      exact hrot.append hact
    refine ⟨hall.trans h.folge, fun ln hmem => h.zeile ln (hall.subset hmem), ?_, ?_⟩
    · rw [hactive]
      refine kappen_le hmax fun ln hmem => h.zeile ln ?_
      rw [zeilen_eq]
      exact List.mem_append_right _ (List.mem_of_mem_filter hmem)
    · exact (weight_le_of_sublist hrot).trans h.rotated

theorem Begrenzt.exportSpans {bisher : List String} (h : Begrenzt maxBytes batch bisher s)
    (hmax : c.maxBytes = some maxBytes) (now : ℤ) (records : List Record)
    (hbatch : weight blen (zeilen dumps c records) ≤ batch) :
    Begrenzt maxBytes batch (bisher ++ zeilen dumps c records)
      (exportSpans dumps c now records s) := by
  have hline : ∀ ln ∈ zeilen dumps c records, blen ln ≤ batch := by
    intro ln hmem
    have hle := weight_le_of_sublist (w := blen) (List.singleton_sublist.mpr hmem)
    rw [weight_cons, weight_nil] at hle
    omega
  rw [Telemetrie.exportSpans]
  split
  next hnil =>
    rw [hnil, List.append_nil]
    exact h
  next =>
    rcases rotateIfOverCap_cases c s with ⟨heq, hle⟩ | ⟨m, d, hm, hactive, hover, heq⟩
    · rw [heq]
      have hall : (anhaengen now (zeilen dumps c records) s).zeilen =
          s.zeilen ++ zeilen dumps c records := by
        rw [zeilen_eq, zeilen_eq, List.append_assoc]
        rfl
      refine ⟨?_, ?_, ?_, h.rotated⟩
      · rw [hall]
        exact h.folge.append (List.Sublist.refl _)
      · rw [hall]
        intro ln hmem
        rcases List.mem_append.mp hmem with hmem | hmem
        · exact h.zeile ln hmem
        · exact hline ln hmem
      · show weight blen (inhalt s.active ++ zeilen dumps c records) ≤ maxBytes + batch
        rw [weight_append]
        exact Nat.add_le_add (hle maxBytes hmax) hbatch
    · rw [heq]
      have hall : (anhaengen now (zeilen dumps c records) ⟨none, some d⟩).zeilen =
          inhalt s.active ++ zeilen dumps c records := by
        rw [hactive]
        rfl
      have hsub : (inhalt s.active).Sublist s.zeilen := by
        rw [zeilen_eq]
        exact List.sublist_append_right _ _
      refine ⟨?_, ?_, ?_, ?_⟩
      · rw [hall]
        exact (hsub.trans h.folge).append (List.Sublist.refl _)
      · rw [hall]
        intro ln hmem
        rcases List.mem_append.mp hmem with hmem | hmem
        · exact h.zeile ln (hsub.subset hmem)
        · exact hline ln hmem
      · show weight blen ([] ++ zeilen dumps c records) ≤ maxBytes + batch
        rw [List.nil_append]
        omega
      · have hact := h.active
        rwa [hactive] at hact

/-- After any run the store has lines of the run, in their order and none twice, and
neither file is over the cap by more than the greatest batch. -/
theorem begrenzt (hmax : c.maxBytes = some maxBytes) (ereignisse : List Ereignis)
    (hbatch : ∀ now records, .exportiert now records ∈ ereignisse →
      weight blen (zeilen dumps c records) ≤ batch) :
    let s := lauf loads dumps c ⟨none, none⟩ ereignisse
    s.zeilen.Sublist (geschrieben dumps c ereignisse) ∧
      weight blen (inhalt s.active) ≤ maxBytes + batch ∧
      weight blen (inhalt s.rotated) ≤ maxBytes + batch := by
  intro s
  have hrun : Begrenzt maxBytes batch (geschrieben dumps c ereignisse) s := by
    show Begrenzt maxBytes batch _ (lauf loads dumps c ⟨none, none⟩ ereignisse)
    clear s
    induction ereignisse using List.reverseRecOn with
    | nil => exact ⟨List.Sublist.refl _, nofun, Nat.zero_le _, Nat.zero_le _⟩
    | append_singleton vor e ih =>
        have ih := ih fun now records hmem => hbatch now records (List.mem_append_left _ hmem)
        rw [lauf, List.foldl_append, geschrieben, List.flatMap_append, List.flatMap_singleton]
        cases e with
        | start now =>
            rw [List.append_nil]
            exact ih.pruneStore hmax now
        | exportiert now records =>
            exact ih.exportSpans hmax now records (hbatch now records
              (List.mem_append_right _ List.mem_cons_self))
  exact ⟨hrun.folge, hrun.active, hrun.rotated⟩

/-- A start drops `a`, which is too old; the export of `e` finds the file over its cap and moves
it, and a later start keeps both files. -/
theorem begrenzt_fuenf :
    let s := lauf (fun ln => .objekt (some (.of (if ln = "a" then 1 else 5))) none) Record.name
      ⟨3, some 5, false⟩ ⟨none, none⟩
      [.start 0, .exportiert 4 [⟨"a", none, none, none, ""⟩, ⟨"b", none, none, none, ""⟩,
          ⟨"c", none, none, none, ""⟩], .start 5,
        .exportiert 6 [⟨"d", none, none, none, ""⟩], .exportiert 7 [⟨"e", none, none, none, ""⟩],
        .start 8]
    s.zeilen = ["b", "c", "d", "e"] ∧ s.zeilen.Sublist ["a", "b", "c", "d", "e"] ∧
      weight blen (inhalt s.active) ≤ 5 + 6 ∧ weight blen (inhalt s.rotated) ≤ 5 + 6 := by
  refine ⟨by decide +kernel, begrenzt (c := ⟨3, some 5, false⟩) rfl
    [.start 0, .exportiert 4 [⟨"a", none, none, none, ""⟩, ⟨"b", none, none, none, ""⟩,
        ⟨"c", none, none, none, ""⟩], .start 5,
      .exportiert 6 [⟨"d", none, none, none, ""⟩], .exportiert 7 [⟨"e", none, none, none, ""⟩],
      .start 8] fun now records hmem => ?_⟩
  simp only [List.mem_cons, Ereignis.exportiert.injEq, reduceCtorEq, List.not_mem_nil, false_or,
    or_false] at hmem
  rcases hmem with ⟨rfl, rfl⟩ | ⟨rfl, rfl⟩ | ⟨rfl, rfl⟩ <;> decide +kernel

/-! ## What stays -/

/-- A line is in the store, and since it was written at most `menge` bytes have been,
itself included: it is in the active file, or in the rotated one, which is as young. -/
inductive Aufgehoben (t : ℤ) (ln : String) (menge : ℕ) (s : Ablage) : Prop where
  | active (d : Datei) (vor nach : List String) : s.active = some d →
      d.zeilen = vor ++ ln :: nach → t ≤ d.mtime → weight blen (ln :: nach) ≤ menge →
      Aufgehoben t ln menge s
  | rotated (d : Datei) : s.rotated = some d → ln ∈ d.zeilen → t ≤ d.mtime →
      weight blen (inhalt s.active) ≤ menge → Aufgehoben t ln menge s

theorem Aufgehoben.mem {t : ℤ} {ln : String} {menge : ℕ} (h : Aufgehoben t ln menge s) :
    ln ∈ s.zeilen := by
  rw [zeilen_eq, List.mem_append]
  cases h with
  | active d vor nach hs hd _ _ =>
      right
      rw [hs, inhalt_some, hd]
      exact List.mem_append_right _ List.mem_cons_self
  | rotated d hs hmem _ _ =>
      left
      rw [hs]
      exact hmem

/-- Pruning leaves a line that is not too old and near enough to the end. -/
theorem Aufgehoben.pruneStore {t : ℤ} {ln : String} {menge : ℕ} (h : Aufgehoben t ln menge s)
    (hmax : c.maxBytes = some maxBytes) (hmenge : menge ≤ maxBytes) (hlater : t ≤ now)
    (hage : now - c.maxAge ≤ t) (hbleibt : bleibt loads (now - c.maxAge) ln = true) :
    Aufgehoben t ln menge (pruneStore loads c now s) := by
  rcases pruneStore_cases loads c now s with heq | ⟨hrotated, hactive, htime⟩
  · rw [heq]
    exact h
  · cases h with
    | active d vor nach hs hd ht hle =>
        rw [hs, inhalt_some, hd, List.filter_append, List.filter_cons_of_pos hbleibt, hmax]
          at hactive
        have hweight : weight blen (ln :: nach.filter (bleibt loads (now - c.maxAge))) ≤ menge := by
          have hsub := weight_le_of_sublist (w := blen)
            (List.filter_sublist (p := bleibt loads (now - c.maxAge)) (l := nach))
          rw [weight_cons] at hle ⊢
          omega
        obtain ⟨rest, hrest⟩ := suffix_fit (w := blen) (List.suffix_append _ _)
          (hweight.trans hmenge)
        cases hnew : (Telemetrie.pruneStore loads c now s).active with
        | none =>
            rw [hnew] at hactive
            exact absurd (hactive.trans hrest.symm) (by simp)
        | some d' =>
            rw [hnew] at hactive
            exact .active d' rest _ hnew (hactive.trans hrest.symm)
              (by rw [htime d' hnew]; exact hlater)
              hweight
    | rotated d hs hmem ht hle =>
        refine .rotated d ?_ hmem ht ?_
        · rw [hrotated, hs, Option.filter_some, if_pos (by simpa using hage.trans ht)]
        · rw [hactive]
          have hsub := weight_le_of_sublist (w := blen)
            ((kappen_suffix c.maxBytes _).sublist.trans
              (List.filter_sublist (p := bleibt loads (now - c.maxAge)) (l := inhalt s.active)))
          omega

theorem Aufgehoben.mono {t : ℤ} {ln : String} {menge menge' : ℕ} (h : Aufgehoben t ln menge s)
    (hle : menge ≤ menge') : Aufgehoben t ln menge' s := by
  cases h with
  | active d vor nach hs hd ht hweight => exact .active d vor nach hs hd ht (hweight.trans hle)
  | rotated d hs hmem ht hweight => exact .rotated d hs hmem ht (hweight.trans hle)

/-- An export moves a line on while no more than the cap has been written since. -/
theorem Aufgehoben.exportSpans {t : ℤ} {ln : String} {menge : ℕ} (h : Aufgehoben t ln menge s)
    (hmax : c.maxBytes = some maxBytes) (hmenge : menge ≤ maxBytes) (hlater : t ≤ now)
    (records : List Record) :
    Aufgehoben t ln (menge + weight blen (zeilen dumps c records))
      (exportSpans dumps c now records s) := by
  rw [Telemetrie.exportSpans]
  split
  next => exact h.mono (Nat.le_add_right _ _)
  next =>
    rcases rotateIfOverCap_cases c s with ⟨heq, -⟩ | ⟨m, d', hm, hactive, hover, heq⟩
    · rw [heq]
      cases h with
      | active d vor nach hs hd ht hle =>
          refine .active ⟨d.zeilen ++ zeilen dumps c records, now⟩ vor
            (nach ++ zeilen dumps c records) ?_ ?_ hlater ?_
          · rw [anhaengen, hs]
            rfl
          · rw [hd, List.append_assoc, List.cons_append]
          · rw [← List.cons_append, weight_append]
            exact Nat.add_le_add_right hle _
      | rotated d hs hmem ht hle =>
          refine .rotated d hs hmem ht ?_
          show weight blen (inhalt s.active ++ zeilen dumps c records) ≤ _
          rw [weight_append]
          exact Nat.add_le_add_right hle _
    · obtain rfl : maxBytes = m := Option.some.inj (hmax.symm.trans hm)
      rw [heq]
      cases h with
      | active d vor nach hs hd ht hle =>
          obtain rfl : d = d' := Option.some.inj (hs.symm.trans hactive)
          refine .rotated d rfl (by rw [hd]; exact List.mem_append_right _ List.mem_cons_self) ht ?_
          show weight blen ([] ++ zeilen dumps c records) ≤ _
          rw [List.nil_append]
          exact Nat.le_add_left _ _
      | rotated d hs hmem ht hle =>
          -- the active file would be over the cap with what was written since
          rw [hactive, inhalt_some] at hle
          omega

theorem aufgehoben_exportSpans {t : ℤ} {records : List Record} {ln : String}
    (hln : ln ∈ zeilen dumps c records) :
    Aufgehoben t ln (weight blen (zeilen dumps c records)) (exportSpans dumps c t records s) := by
  obtain ⟨vor, nach, hsplit⟩ := List.append_of_mem hln
  have hne : zeilen dumps c records ≠ [] := List.ne_nil_of_mem hln
  rw [Telemetrie.exportSpans, if_neg hne]
  refine .active ⟨inhalt (rotateIfOverCap c s).active ++ zeilen dumps c records, t⟩
    (inhalt (rotateIfOverCap c s).active ++ vor) nach rfl ?_ le_rfl ?_
  · rw [hsplit, List.append_assoc]
  · rw [hsplit, weight_append]
    exact Nat.le_add_left _ _

/-- A record that is no noise is in the store after a run, if at every later start it was
not too old and no more than the cap has been written since: its own batch and all later
ones. -/
theorem bleibt_erhalten (hmax : c.maxBytes = some maxBytes) (vor nach : List Ereignis) {t z : ℤ}
    {records : List Record} {r : Record} (hr : r ∈ records)
    (hnoise : (c.dropNoise && isDroppableNoise r) = false) (hend : r.endTime = some z)
    (hz : z ≤ t) (hne : dumps r ≠ "")
    (hjson : loads (dumps r) =
      .objekt (r.endTime.map fun z => .of z) (r.startTime.map fun z => .of z))
    (hlater : ∀ e ∈ nach, t ≤ e.zeit) (hage : ∀ now, .start now ∈ nach → now - c.maxAge ≤ z)
    (hmenge : weight blen (geschrieben dumps c (.exportiert t records :: nach)) ≤ maxBytes) :
    dumps r ∈ (lauf loads dumps c ⟨none, none⟩ (vor ++ .exportiert t records :: nach)).zeilen := by
  have hln : dumps r ∈ zeilen dumps c records :=
    List.mem_map_of_mem (List.mem_filter.mpr ⟨hr, by rw [hnoise]; rfl⟩)
  have hbleibt : ∀ now, now - c.maxAge ≤ z → bleibt loads (now - c.maxAge) (dumps r) = true := by
    intro now hnow
    have hcast : (now - c.maxAge : ℚ) ≤ z := by exact_mod_cast hnow
    rw [bleibt, hjson, hend]
    simpa [hne, veraltet] using hcast
  have hrun : Aufgehoben t (dumps r)
      (weight blen (geschrieben dumps c (.exportiert t records :: nach)))
      (lauf loads dumps c ⟨none, none⟩ (vor ++ .exportiert t records :: nach)) := by
    induction nach using List.reverseRecOn with
    | nil =>
        rw [lauf, List.foldl_append]
        have hwritten : geschrieben dumps c [.exportiert t records] = zeilen dumps c records :=
          List.append_nil _
        rw [hwritten]
        exact aufgehoben_exportSpans hln
    | append_singleton nach e ih =>
        have hsplit : geschrieben dumps c (.exportiert t records :: (nach ++ [e])) =
            geschrieben dumps c (.exportiert t records :: nach) ++ geschrieben dumps c [e] := by
          rw [geschrieben, ← List.cons_append, List.flatMap_append]
          rfl
        rw [hsplit, weight_append] at hmenge ⊢
        have ih := ih (fun e' he' => hlater e' (List.mem_append_left _ he'))
          (fun now hnow => hage now (List.mem_append_left _ hnow)) (by omega)
        have hstep : lauf loads dumps c ⟨none, none⟩
            (vor ++ .exportiert t records :: (nach ++ [e])) =
            schritt loads dumps c
              (lauf loads dumps c ⟨none, none⟩ (vor ++ .exportiert t records :: nach)) e := by
          rw [← List.cons_append, ← List.append_assoc, lauf, List.foldl_append]
          rfl
        have hmem : e ∈ nach ++ [e] := List.mem_append_right _ List.mem_cons_self
        rw [hstep]
        cases e with
        | start now =>
            have htime : t ≤ now := hlater _ hmem
            have hnow := hage now hmem
            exact (ih.pruneStore hmax (by omega) htime (by omega) (hbleibt now hnow)).mono
              (Nat.le_add_right _ _)
        | exportiert now later =>
            have hwritten : geschrieben dumps c [.exportiert now later] = zeilen dumps c later :=
              List.append_nil _
            rw [hwritten] at hmenge ⊢
            exact ih.exportSpans hmax (by omega) (hlater _ hmem) later
  exact hrun.mem

/-- The line of a span that has only a name and an end. -/
def tickZeile : String :=
  "\x7b\"name\": \"tick\", \"trace_id\": null, \"span_id\": null, \"parent_span_id\": null, " ++
    "\"kind\": null, \"status\": null, \"start_time\": null, \"end_time\": 5, " ++
    "\"attributes\": \x7b\x7d, \"resource\": \x7b\x7d, \"events\": []\x7d"

/-- Two starts and another export after it, within the cap and the age. -/
theorem bleibt_erhalten_tick : tickZeile ∈
    (lauf (fun ln => if ln = tickZeile then .objekt (some (.of 5)) none else .unlesbar)
      (fun _ => tickZeile) ⟨10, some 1000, true⟩ ⟨none, none⟩
      ([.start 1] ++ .exportiert 6 [⟨"tick", none, none, some 5, ""⟩] ::
        [.start 8, .exportiert 9 [⟨"tick", none, none, some 5, ""⟩], .start 14])).zeilen :=
  bleibt_erhalten (z := 5) rfl [.start 1]
    [.start 8, .exportiert 9 [⟨"tick", none, none, some 5, ""⟩], .start 14]
    List.mem_cons_self rfl rfl (by decide) (by decide +kernel) (by simp) (by simp [Ereignis.zeit])
    (by
      intro now hnow
      simp only [List.mem_cons, Ereignis.start.injEq, reduceCtorEq, List.not_mem_nil, false_or,
        or_false] at hnow
      rcases hnow with rfl | rfl <;> decide) (by decide +kernel)

end

end Telemetrie
