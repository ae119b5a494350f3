import AutonomousEngine.Nachlesen.Datei

/-!
# The files of a table

`_dateien` lists the files of a table by their names, and it raises when the day of one is none.
A file that is set aside is gone from the list of its table (`dateien_ohne`) and changes nothing
for the other table (`dateien_ohne_of_none`), for no name belongs to both (`muster_eq_none`).
-/

namespace Nachlesen

open Basis

variable {U : Umgebung} {t : Tabelle} {a : Ablage} {fs : List (Datei × Date)}

/-- A file with its day, or with none; other files are left out. -/
def eintrag (U : Umgebung) (t : Tabelle) (f : Datei) : Option (Option (Datei × Date)) :=
  (muster U t f.name).map fun ziffern => (strptime U ziffern).map fun tag => (f, tag)

/-- The files of a directory by their names. -/
def sortiert (a : Ablage) : List Datei := a.dateien.insertionSort fun f g => nameLe f g = true

/-! ## The order of the names -/

instance : Std.Total fun f g : Datei => nameLe f g = true where
  total f g := by
    rw [← Bool.or_eq_true]
    exact strLe_total _ _

instance : IsTrans Datei fun f g => nameLe f g = true where
  trans _ _ _ h h' := strLe_trans h h'

theorem sortiert_perm (a : Ablage) : (sortiert a).Perm a.dateien := List.perm_insertionSort _ _

theorem sortiert_pairwise (a : Ablage) :
    (sortiert a).Pairwise fun f g => nameLe f g = true := List.pairwise_insertionSort _ _

theorem name_eq_of_nameLe {f g : Datei} (h : nameLe f g = true) (h' : nameLe g f = true) :
    f.name = g.name := ofText_injective (strLe_antisymm h h')

/-- The other files stay in their order. -/
theorem sortiert_ohne (a : Ablage) (name : List Char) :
    sortiert (a.ohne name) = (sortiert a).filter fun f => f.name ≠ name := by
  have hperm : (sortiert (a.ohne name)).Perm ((sortiert a).filter fun f => f.name ≠ name) :=
    (sortiert_perm (a.ohne name)).trans ((sortiert_perm a).filter _).symm
  refine hperm.eq_of_pairwise (fun f g hf hg hfg hgf => ?_) (sortiert_pairwise _)
    ((sortiert_pairwise a).filter _)
  refine List.inj_on_of_nodup_map a.nodup ?_ ?_ (name_eq_of_nameLe hfg hgf)
  · exact List.mem_of_mem_filter ((sortiert_perm (a.ohne name)).subset hf)
  · exact (sortiert_perm a).subset (List.mem_of_mem_filter hg)

/-! ## The list -/

theorem mapM_id_eq_some_iff {α : Type} {xs : List (Option α)} {ys : List α} :
    xs.mapM id = some ys ↔ xs = ys.map some := by
  induction xs generalizing ys with
  | nil =>
      cases ys with
      | nil => simp
      | cons y ys => simp
  | cons x xs ih =>
      rw [List.mapM_cons]
      cases x with
      | none =>
          cases ys with
          | nil => simp
          | cons y ys => simp
      | some x =>
          show (xs.mapM id).bind (fun ys => some (x :: ys)) = some ys ↔ _
          rw [Option.bind_eq_some_iff]
          cases ys with
          | nil => simp
          | cons y ys =>
              rw [List.map_cons, List.cons.injEq, ← ih, Option.some.injEq]
              constructor
              · rintro ⟨zs, hzs, heq⟩
                obtain ⟨rfl, rfl⟩ := List.cons.inj (Option.some.inj heq)
                exact ⟨rfl, hzs⟩
              · rintro ⟨rfl, hzs⟩
                exact ⟨ys, hzs, rfl⟩

theorem dateien_eq_some_iff :
    dateien U t a = some fs ↔ (sortiert a).filterMap (eintrag U t) = fs.map some :=
  mapM_id_eq_some_iff

theorem eintrag_eq_some {f : Datei} {g : Datei × Date} (h : eintrag U t f = some (some g)) :
    g.1 = f := by
  obtain ⟨ziffern, -, hziffern⟩ := Option.map_eq_some_iff.mp h
  obtain ⟨tag, -, rfl⟩ := Option.map_eq_some_iff.mp hziffern
  rfl

/-- A listed file has a name of its table. -/
theorem muster_of_mem (h : dateien U t a = some fs) {f : Datei × Date} (hf : f ∈ fs) :
    f.1 ∈ a.dateien ∧ (muster U t f.1.name).isSome := by
  have hmem : some f ∈ (sortiert a).filterMap (eintrag U t) := by
    rw [dateien_eq_some_iff.mp h]
    exact List.mem_map_of_mem hf
  obtain ⟨g, hg, hentry⟩ := List.mem_filterMap.mp hmem
  obtain rfl := eintrag_eq_some hentry
  obtain ⟨ziffern, hziffern, -⟩ := Option.map_eq_some_iff.mp hentry
  exact ⟨(sortiert_perm a).subset hg, by rw [hziffern]; rfl⟩

/-- The listed files have different names. -/
theorem nodup_names (h : dateien U t a = some fs) : (fs.map fun f => f.1.name).Nodup := by
  have hnodup : ((sortiert a).map Datei.name).Nodup :=
    ((sortiert_perm a).map Datei.name).nodup_iff.mpr a.nodup
  have hsub : (fs.map fun f => f.1).Sublist (sortiert a) := by
    have hall := dateien_eq_some_iff.mp h
    generalize sortiert a = gs at hall
    clear hnodup h
    induction gs generalizing fs with
    | nil =>
        obtain rfl := List.map_eq_nil_iff.mp hall.symm
        exact .slnil
    | cons g gs ih =>
        rw [List.filterMap_cons] at hall
        cases hentry : eintrag U t g with
        | none =>
            rw [hentry] at hall
            exact (ih hall).cons g
        | some e =>
            rw [hentry] at hall
            cases fs with
            | nil => cases hall
            | cons f fs =>
                obtain ⟨rfl, hrest⟩ := List.cons.inj hall
                rw [List.map_cons, eintrag_eq_some hentry]
                exact (ih hrest).cons_cons g
  rw [show (fs.map fun f => f.1.name) = (fs.map fun f => f.1).map Datei.name from
    (List.map_map ..).symm]
  exact hnodup.sublist (hsub.map Datei.name)

/-- A file that is set aside is gone from the list. -/
theorem dateien_ohne (h : dateien U t a = some fs) (name : List Char) :
    dateien U t (a.ohne name) = some (fs.filter fun f => f.1.name ≠ name) := by
  rw [dateien_eq_some_iff] at h ⊢
  rw [sortiert_ohne]
  generalize sortiert a = gs at h
  induction gs generalizing fs with
  | nil =>
      obtain rfl := List.map_eq_nil_iff.mp h.symm
      rfl
  | cons g gs ih =>
      rw [List.filterMap_cons] at h
      cases hentry : eintrag U t g with
      | none =>
          rw [hentry] at h
          rw [List.filter_cons]
          split
          next => rw [List.filterMap_cons, hentry]; exact ih h
          next => exact ih h
      | some e =>
          rw [hentry] at h
          cases fs with
          | nil => cases h
          | cons f fs =>
              obtain ⟨rfl, hrest⟩ := List.cons.inj h
              rw [List.filter_cons, List.filter_cons, eintrag_eq_some hentry]
              split
              next => rw [List.filterMap_cons, hentry, List.map_cons, ← ih hrest]
              next => exact ih hrest

/-- A file of the other table does not count. -/
theorem dateien_ohne_of_none {name : List Char} (h : muster U t name = none) :
    dateien U t (a.ohne name) = dateien U t a := by
  have hentries : (sortiert (a.ohne name)).filterMap (eintrag U t) =
      (sortiert a).filterMap (eintrag U t) := by
    rw [sortiert_ohne, List.filterMap_filter]
    refine List.filterMap_congr fun f _ => ?_
    split
    next => rfl
    next hname =>
      rw [eintrag, show f.name = name by simpa using hname, h]
      rfl
  rw [dateien, dateien]
  exact congrArg (List.mapM id) hentries

theorem anfang_of_muster {name : List Char} (h : (muster U t name).isSome) :
    (t.tabelle ++ "_").toList <+: name := by
  rw [muster] at h
  split at h
  next hmuster => exact hmuster.1
  next => cases h

/-- No name belongs to two tables. -/
theorem muster_eq_none {t' : Tabelle} {name : List Char} (h : (muster U t name).isSome)
    (ht : t' ≠ t) : muster U t' name = none := by
  rw [← Option.not_isSome_iff_eq_none]
  intro h'
  have hlong {name : List Char} (h : (muster U .decisions name).isSome)
      (h' : (muster U .decisionOutcomes name).isSome) : False :=
    absurd (List.prefix_of_prefix_length_le (anfang_of_muster h) (anfang_of_muster h')
      (by decide)) (by decide)
  cases t with
  | decisions =>
      cases t' with
      | decisions => exact ht rfl
      | decisionOutcomes => exact hlong h h'
  | decisionOutcomes =>
      cases t' with
      | decisions => exact hlong h' h
      | decisionOutcomes => exact ht rfl

end Nachlesen
