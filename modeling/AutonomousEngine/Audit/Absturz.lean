import AutonomousEngine.Basis.JsonLines
import Mathlib.Data.List.Induction
import Mathlib.Data.String.Basic

/-!
# A crash while an audit record is written

The day files of the audit log as texts.  A record is written as one line, and a
crash may leave any part of it.  After a restart the head of the chain is read from
the end of the newest file, where a part of a line is no record and is passed over.
The next record is written where the file ends, and stands on a line of its own only
when a line ends there.

What is written is ASCII, so a file is a list of characters and these are its bytes.
The day files are kept in the order in which they were made, and they can be read.
-/

namespace Absturz

open Basis

/-- What the logger takes from the hash and signature modules: the hash of a record,
which has 64 characters, and the signature of a hash. -/
structure Schrift extends Floats where
  sha256 : List (List CodeUnit × Json F) → List Char
  laenge : ∀ felder, (sha256 felder).length = 64
  signWormHash : List Char → Json F

variable (S : Schrift)

abbrev Felder := List (List CodeUnit × Json S.F)

/-- An entry before it is chained. -/
structure Eintrag where
  felder : Felder S
  verschieden : (felder.map Prod.fst).Nodup

/-! ## Writing -/

/-- The name of a field as it is written. -/
def feld (s : String) : List CodeUnit := unitsOfText s.toList

def nullHash : List CodePoint := ofText (List.replicate 64 '0')

def mitKopf (kopf : List CodePoint) (e : Eintrag S) : Felder S :=
  dictSet (feld "prev_hash") (.str (encode kopf)) e.felder

def neuerHash (kopf : List CodePoint) (e : Eintrag S) : List Char := S.sha256 (mitKopf S kopf e)

def istLiveEnablement (felder : Felder S) : Bool :=
  match dictGet (feld "event_type") felder with
  | some (.str us) => us == feld "live_enablement"
  | _ => false

/-- The record of an entry behind a head. -/
def satz (kopf : List CodePoint) (e : Eintrag S) : Felder S :=
  let mitHash := dictSet (feld "hash") (.str (unitsOfText (neuerHash S kopf e))) (mitKopf S kopf e)
  if istLiveEnablement S mitHash then
    dictSet (feld "sig") (S.signWormHash (neuerHash S kopf e)) mitHash
  else mitHash

/-- The line of a record, without its newline. -/
def zeile (kopf : List CodePoint) (e : Eintrag S) : List Char :=
  print S.toFloats (.obj (satz S kopf e))

abbrev Dateien := List (String × List Char)

/-- The text of a day file, empty when it is not there. -/
def textVon (f : String) (ds : Dateien) : List Char := (dictGet f ds).getD []

/-- Opens a day file for appending and writes a text. -/
def schreibe (f : String) (t : List Char) (ds : Dateien) : Dateien :=
  dictSet f (textVon f ds ++ t) ds

/-! ## Reading the head back -/

/-- What a search for a hash ends with.  A line of JSON that is no object raises an
error. -/
inductive Fund where
  | nichts
  | hash (h : List CodePoint)
  | fehler
deriving DecidableEq

def hashDerZeile (l : List Char) : Fund :=
  if strip l = [] then .nichts
  else
    match loads S.toFloats (strip l) with
    | none => .nichts
    | some (.obj felder) =>
        match dictGet (feld "hash") felder with
        | some (.str us) => if (decode us).length = 64 then .hash (decode us) else .nichts
        | _ => .nichts
    | some _ => .fehler

def suche : List (List Char) → Fund
  | [] => .nichts
  | l :: ls =>
      match hashDerZeile S l with
      | .nichts => suche ls
      | f => f

def zeilen (t : List Char) : List (List Char) := splitLines isLineBreak false t

/-- The windows at the end of a file that are searched in turn. -/
def tailWindowsBytes : List ℕ := [64 * 1024, 1024 * 1024, 16 * 1024 * 1024]

/-- The lines in a window at the end of a text.  The first one is thrown away unless
the window reaches the start. -/
def zeilenImFenster (t : List Char) (w : ℕ) : List (List Char) :=
  if 0 < t.length - w then (zeilen (t.drop (t.length - w))).drop 1
  else zeilen (t.drop (t.length - w))

def sucheInFenstern (t : List Char) : List ℕ → Fund
  | [] => .nichts
  | w :: ws =>
      match suche S (zeilenImFenster t w).reverse with
      | .nichts => if t.length - w = 0 then .nichts else sucheInFenstern t ws
      | f => f

/-- The youngest hash of a day file, read from its end. -/
def lastHashInTail (t : List Char) : Fund :=
  if t.length = 0 then .nichts else sucheInFenstern S t tailWindowsBytes

def sucheInDateien : Dateien → Fund
  | [] => .nichts
  | d :: ds =>
      match lastHashInTail S d.2 with
      | .nichts => sucheInDateien ds
      | f => f

def recoverLastHash (ds : Dateien) : List CodePoint :=
  match sucheInDateien S (ds.insertionSort fun d d' => d.1 ≤ d'.1).reverse with
  | .hash h => h
  | _ => nullHash

/-! ## Runs -/

/-- The day files and the head in memory. -/
structure Zustand where
  dateien : Dateien
  kopf : List CodePoint

def leer : Zustand := ⟨[], nullHash⟩

/-- An append to a day file, a crash that leaves some bytes of one, and a restart. -/
inductive Schritt where
  | anhang (f : String) (e : Eintrag S)
  | absturz (f : String) (e : Eintrag S) (k : ℕ)
  | neustart

def nachAbsturz (s : Zustand) (f : String) (e : Eintrag S) (k : ℕ) : Dateien :=
  schreibe f ((zeile S s.kopf e ++ ['\n']).take k) s.dateien

/-- A step.  After a crash the logger is started again. -/
def schritt (s : Zustand) : Schritt S → Zustand
  | .anhang f e =>
      ⟨schreibe f (zeile S s.kopf e ++ ['\n']) s.dateien, ofText (neuerHash S s.kopf e)⟩
  | .absturz f e k => ⟨nachAbsturz S s f e k, recoverLastHash S (nachAbsturz S s f e k)⟩
  | .neustart => ⟨s.dateien, recoverLastHash S s.dateien⟩

def lauf (s : Zustand) (xs : List (Schritt S)) : Zustand := xs.foldl (schritt S) s

/-! ## The last complete record -/

variable {S}

def Fund.hash? : Fund → Option (List CodePoint)
  | .hash h => some h
  | _ => none

variable (S)

/-- The hashes of the complete records among some lines. -/
def hashes (ls : List (List Char)) : List (List CodePoint) :=
  ls.filterMap fun l => (hashDerZeile S l).hash?

def alleZeilen (ds : Dateien) : List (List Char) := ds.flatMap fun d => zeilen d.2

/-- The hash of the last complete record. -/
def letzterHash (ds : Dateien) : List CodePoint :=
  (hashes S (alleZeilen ds)).getLast?.getD nullHash

/-! ## When a run goes well -/

/-- Whether a text is empty or ends with a line. -/
def endetGanz (t : List Char) : Bool := t.getLast?.all (· == '\n')

/-- A text has no complete record, or has one that starts in the last 16 MiB. -/
def ImFenster (t : List Char) : Prop :=
  hashes S (zeilen t) = [] ∨ t.length ≤ 16 * 1024 * 1024 ∨
    ∃ front back, t = front ++ '\n' :: back ∧ back.length < 16 * 1024 * 1024 ∧
      hashes S (zeilen back) ≠ []

/-- The condition on a step.  A record is written to the newest day file and where a
line ends, and when the logger starts a complete record lies in the windows. -/
def Zulaessig (s : Zustand) : Schritt S → Prop
  | .anhang f _ => (∀ d ∈ s.dateien, d.1 ≤ f) ∧ endetGanz (textVon f s.dateien) = true
  | .absturz f e k => ((∀ d ∈ s.dateien, d.1 ≤ f) ∧ endetGanz (textVon f s.dateien) = true) ∧
      ∀ d ∈ nachAbsturz S s f e k, ImFenster S d.2
  | .neustart => ∀ d ∈ s.dateien, ImFenster S d.2

def LaufZulaessig : Zustand → List (Schritt S) → Prop
  | _, [] => True
  | s, x :: xs => Zulaessig S s x ∧ LaufZulaessig (schritt S s x) xs

/-! ## The search finds the last complete record -/

variable {S}

def Fund.ofOption : Option (List CodePoint) → Fund
  | none => .nichts
  | some h => .hash h

theorem hashes_append (ls ls' : List (List Char)) :
    hashes S (ls ++ ls') = hashes S ls ++ hashes S ls' :=
  List.filterMap_append

theorem suche_cons_of_nichts {l : List Char} (h : hashDerZeile S l = .nichts)
    (ls : List (List Char)) : suche S (l :: ls) = suche S ls := by
  rw [suche, h]

theorem suche_cons_of_hash {l : List Char} {g : List CodePoint} (h : hashDerZeile S l = .hash g)
    (ls : List (List Char)) : suche S (l :: ls) = .hash g := by
  rw [suche, h]

theorem suche_reverse {ls : List (List Char)} (h : ∀ l ∈ ls, hashDerZeile S l ≠ .fehler) :
    suche S ls.reverse = .ofOption (hashes S ls).getLast? := by
  induction ls using List.reverseRecOn with
  | nil => rfl
  | append_singleton ls l ih =>
      rw [List.reverse_concat, hashes_append]
      cases hl : hashDerZeile S l with
      | nichts =>
          rw [suche_cons_of_nichts hl, ih fun l' hl' => h l' (List.mem_append_left _ hl'), hashes,
            hashes, List.filterMap_cons_none (by rw [hl]; rfl), List.filterMap_nil,
            List.append_nil]
      | hash g =>
          rw [suche_cons_of_hash hl, hashes, hashes, List.filterMap_cons_some (by rw [hl]; rfl),
            List.filterMap_nil, List.getLast?_concat]
          rfl
      | fehler => exact absurd hl (h l (List.mem_append_right _ (.head _)))

theorem isLineBreak_newline : isLineBreak '\n' = true := rfl

/-- The lines in a window are the last of the file. -/
theorem zeilenImFenster_suffix (t : List Char) (w : ℕ) :
    ∃ ls, zeilen t = ls ++ zeilenImFenster t w := by
  rw [zeilenImFenster]
  split
  next =>
    obtain ⟨ls, hls, -⟩ := splitLines_part isLineBreak_newline false
      (t.take (t.length - w)) (t.drop (t.length - w))
    rw [List.take_append_drop] at hls
    exact ⟨ls, hls⟩
  next hstart =>
    rw [Nat.eq_zero_of_not_pos hstart]
    exact ⟨[], rfl⟩

theorem zeilenImFenster_of_start {t : List Char} {w : ℕ} (h : t.length - w = 0) :
    zeilenImFenster t w = zeilen t := by
  rw [zeilenImFenster, h]
  rfl

/-- Whether some windows show a record, if there is one. -/
def Sichtbar (S : Schrift) (t : List Char) (ws : List ℕ) : Prop :=
  hashes S (zeilen t) = [] ∨
    ∃ w ∈ ws, t.length ≤ w ∨ hashes S (zeilenImFenster t w) ≠ []

theorem sucheInFenstern_eq {t : List Char} (h : ∀ l ∈ zeilen t, hashDerZeile S l ≠ .fehler)
    {ws : List ℕ} (hws : Sichtbar S t ws) :
    sucheInFenstern S t ws = .ofOption (hashes S (zeilen t)).getLast? := by
  induction ws with
  | nil =>
      rcases hws with hnil | ⟨w, hw, -⟩
      · rw [hnil]
        rfl
      · cases hw
  | cons w ws ih =>
      obtain ⟨ls, hls⟩ := zeilenImFenster_suffix t w
      have hwindow : ∀ l ∈ zeilenImFenster t w, hashDerZeile S l ≠ .fehler := fun l hl =>
        h l (hls ▸ List.mem_append_right _ hl)
      have hlast := congrArg (fun zs => (hashes S zs).getLast?) hls
      simp only [hashes_append, List.getLast?_append] at hlast
      rw [sucheInFenstern, suche_reverse hwindow]
      cases hfound : (hashes S (zeilenImFenster t w)).getLast? with
      | some g =>
          rw [hlast, hfound]
          rfl
      | none =>
          simp only [Fund.ofOption]
          split
          next hstart =>
            rw [zeilenImFenster_of_start hstart] at hfound
            rw [hfound]
          next hstart =>
            refine ih (hws.imp_right ?_)
            rintro ⟨w', hw', hvisible⟩
            rcases List.mem_cons.mp hw' with rfl | hw'
            · rcases hvisible with hle | hne
              · exact absurd (Nat.sub_eq_zero_of_le hle) hstart
              · exact absurd (List.getLast?_eq_none_iff.mp hfound) hne
            · exact ⟨w', hw', hvisible⟩

/-- A record that starts in a window is shown. -/
theorem hashes_zeilenImFenster {front back : List Char} {w : ℕ} (hback : back.length < w)
    (hne : hashes S (zeilen back) ≠ []) :
    (front ++ '\n' :: back).length ≤ w ∨
      hashes S (zeilenImFenster (front ++ '\n' :: back) w) ≠ [] := by
  refine or_iff_not_imp_left.mpr fun hlong => ?_
  have hlen : (front ++ '\n' :: back).length = front.length + (back.length + 1) := by
    rw [List.length_append, List.length_cons]
  have hdrop : (front ++ '\n' :: back).drop ((front ++ '\n' :: back).length - w) =
      front.drop ((front ++ '\n' :: back).length - w) ++ '\n' :: back :=
    List.drop_append_of_le_length (by omega)
  obtain ⟨ls, hls, hfirst⟩ := splitLines_newline isLineBreak_newline false
    (front.drop ((front ++ '\n' :: back).length - w)) back
  rw [zeilenImFenster, if_pos (by omega), hdrop, zeilen, hls]
  cases ls with
  | nil => exact absurd rfl (hfirst rfl)
  | cons l ls =>
      rw [List.cons_append, List.drop_one, List.tail_cons, hashes_append]
      exact fun hnil => hne (List.append_eq_nil_iff.mp hnil).2

theorem sichtbar_of_imFenster {t : List Char} (h : ImFenster S t) :
    Sichtbar S t tailWindowsBytes := by
  have hmem : 16 * 1024 * 1024 ∈ tailWindowsBytes := by decide
  rcases h with hnil | hle | ⟨front, back, rfl, hback, hne⟩
  · exact .inl hnil
  · exact .inr ⟨_, hmem, .inl hle⟩
  · exact .inr ⟨_, hmem, hashes_zeilenImFenster hback hne⟩

theorem lastHashInTail_eq {t : List Char} (h : ∀ l ∈ zeilen t, hashDerZeile S l ≠ .fehler)
    (hw : ImFenster S t) : lastHashInTail S t = .ofOption (hashes S (zeilen t)).getLast? := by
  rw [lastHashInTail]
  split
  next hzero =>
    rw [List.length_eq_zero_iff.mp hzero]
    rfl
  next => exact sucheInFenstern_eq h (sichtbar_of_imFenster hw)

theorem sucheInDateien_reverse {ds : Dateien}
    (h : ∀ d ∈ ds, (∀ l ∈ zeilen d.2, hashDerZeile S l ≠ .fehler) ∧ ImFenster S d.2) :
    sucheInDateien S ds.reverse = .ofOption (hashes S (alleZeilen ds)).getLast? := by
  induction ds using List.reverseRecOn with
  | nil => rfl
  | append_singleton ds d ih =>
      obtain ⟨hd, hw⟩ := h d (List.mem_append_right _ (.head _))
      have halle : hashes S (alleZeilen (ds ++ [d])) =
          hashes S (alleZeilen ds) ++ hashes S (zeilen d.2) := by
        rw [alleZeilen, List.flatMap_append, hashes_append, List.flatMap_singleton]
        rfl
      rw [List.reverse_concat, sucheInDateien, lastHashInTail_eq hd hw, halle,
        List.getLast?_append]
      cases (hashes S (zeilen d.2)).getLast? with
      | some g => rfl
      | none => exact ih fun d' hd' => h d' (List.mem_append_left _ hd')

/-- The head that is read back is the hash of the last complete record. -/
theorem recoverLastHash_eq {ds : Dateien} (hsorted : ds.Pairwise fun d d' => d.1 < d'.1)
    (h : ∀ d ∈ ds, (∀ l ∈ zeilen d.2, hashDerZeile S l ≠ .fehler) ∧ ImFenster S d.2) :
    recoverLastHash S ds = letzterHash S ds := by
  have hsort : ds.insertionSort (fun d d' => d.1 ≤ d'.1) = ds :=
    List.Pairwise.insertionSort_eq (hsorted.imp fun hlt => hlt.le)
  rw [recoverLastHash, hsort, sucheInDateien_reverse h, letzterHash]
  cases (hashes S (alleZeilen ds)).getLast? with
  | some g => rfl
  | none => rfl

/-! ## Lines and parts of lines -/

variable (S) in
def gelesen (kopf : List CodePoint) (e : Eintrag S) : Felder S := dictMembers (satz S kopf e)

section

variable (kopf : List CodePoint) (e : Eintrag S)

theorem feld_ne {s t : String} (h : s.toList ≠ t.toList) : feld s ≠ feld t :=
  fun heq => h (unitsOfText_injective heq)

theorem nodup_satz : ((satz S kopf e).map Prod.fst).Nodup := by
  have hHash := nodup_dictSet (feld "hash") (.str (unitsOfText (neuerHash S kopf e)))
    (nodup_dictSet (feld "prev_hash") (.str (encode kopf)) e.verschieden)
  rw [satz]
  split
  · exact nodup_dictSet _ _ hHash
  · exact hHash

theorem mem_satz_of_ne {m : List CodeUnit × Json S.F} (hsig : m.1 ≠ feld "sig")
    (h : m ∈ dictSet (feld "hash") (.str (unitsOfText (neuerHash S kopf e))) (mitKopf S kopf e)) :
    m ∈ satz S kopf e := by
  rw [satz]
  split
  · exact mem_dictSet_of_ne _ h hsig
  · exact h

theorem loads_zeile : loads S.toFloats (zeile S kopf e) = some (.obj (gelesen S kopf e)) := by
  rw [zeile, loads_print, Json.asDict, dictOf_of_nodup]
  · rfl
  · rw [dictMembers_eq, List.map_map]
    exact nodup_satz kopf e

/-- A string of a record is read back. -/
theorem dictGet_gelesen {k us : List CodeUnit} (h : (k, .str us) ∈ satz S kopf e) :
    dictGet k (gelesen S kopf e) = some (.str us) := by
  rw [gelesen, dictMembers_eq, dictGet_eq_some_iff]
  · refine List.mem_map.mpr ⟨_, h, ?_⟩
    rw [Json.asDict]
  · rw [List.map_map]
    exact nodup_satz kopf e

theorem dictGet_prev_hash :
    dictGet (feld "prev_hash") (gelesen S kopf e) = some (.str (encode kopf)) := by
  refine dictGet_gelesen kopf e (mem_satz_of_ne kopf e (feld_ne (by decide)) ?_)
  exact mem_dictSet_of_ne _ (mem_dictSet _ _ _) (feld_ne (by decide))

theorem strip_zeile : strip (zeile S kopf e) = zeile S kopf e := strip_print_obj S.toFloats _

theorem zeile_eq_cons : ∃ t, zeile S kopf e = '{' :: t := by
  obtain ⟨t, ht⟩ := print_obj_braces S.toFloats (satz S kopf e)
  exact ⟨_, ht⟩

/-- A line is found with its hash. -/
theorem hashDerZeile_zeile :
    hashDerZeile S (zeile S kopf e) = .hash (ofText (neuerHash S kopf e)) := by
  obtain ⟨t, ht⟩ := zeile_eq_cons kopf e
  have hne : zeile S kopf e ≠ [] := by
    rw [ht]
    exact List.cons_ne_nil _ _
  have hhash : dictGet (feld "hash") (gelesen S kopf e) =
      some (.str (unitsOfText (neuerHash S kopf e))) :=
    dictGet_gelesen kopf e (mem_satz_of_ne kopf e (feld_ne (by decide)) (mem_dictSet _ _ _))
  have hdecode : decode (unitsOfText (neuerHash S kopf e)) = ofText (neuerHash S kopf e) :=
    decode_encode fun c hc => not_half_of_mem_ofText hc
  rw [hashDerZeile, strip_zeile, if_neg hne, loads_zeile]
  dsimp only
  rw [hhash]
  dsimp only
  rw [hdecode, if_pos]
  rw [ofText, List.length_map]
  exact S.laenge _

theorem printable_zeile : ∀ c ∈ zeile S kopf e, Printable c := printable_print S.toFloats _

end

/-- A text that starts with no blank loses blanks only at its end. -/
theorem strip_prefix {c : Char} (h : isSpace c = false) (cs : List Char) :
    strip (c :: cs) <+: c :: cs := by
  rw [strip, List.dropWhile_cons_of_neg (by rw [h]; exact Bool.false_ne_true)]
  have hsuffix := List.dropWhile_suffix isSpace (l := (c :: cs).reverse)
  rw [← List.reverse_prefix, List.reverse_reverse] at hsuffix
  exact hsuffix

/-- A hash that is found is a string of the line. -/
theorem decode_of_hashDerZeile {l : List Char} {g : List CodePoint}
    (h : (hashDerZeile S l).hash? = some g) : ∃ us, g = decode us := by
  rw [hashDerZeile] at h
  split at h
  next => cases h
  next =>
    split at h
    next => cases h
    next =>
      split at h
      next us _ =>
        split at h
        next =>
          cases h
          exact ⟨us, rfl⟩
        next => cases h
      next => cases h
    next => cases h

/-- A part of a line is no record. -/
theorem hashDerZeile_teil (kopf : List CodePoint) (e : Eintrag S) {front rest : List Char}
    (h : zeile S kopf e = front ++ rest) (hrest : rest ≠ []) : hashDerZeile S front = .nichts := by
  rw [hashDerZeile]
  split
  next => rfl
  next hne =>
    obtain ⟨t, ht⟩ := zeile_eq_cons kopf e
    cases front with
    | nil => exact absurd rfl hne
    | cons c front =>
        obtain rfl : '{' = c := (List.cons.inj (ht.symm.trans h)).1
        obtain ⟨blanks, hblanks⟩ := strip_prefix (show isSpace '{' = false from rfl) front
        have hcut : print S.toFloats (.obj (satz S kopf e)) =
            strip ('{' :: front) ++ (blanks ++ rest) := by
          rw [← List.append_assoc, hblanks]
          exact h
        have hnone : loads S.toFloats (strip ('{' :: front)) = none := by
          rw [loads, parseJson_eq_none_of_prefix S.toFloats hcut, Option.map_none]
          exact fun hnil => hrest (List.append_eq_nil_iff.mp hnil).2
        rw [hnone]

variable (S) in
/-- A line, or a part of one at the end of a file, that the search can read over. -/
structure Tragbar (l : List Char) : Prop where
  printable : ∀ c ∈ l, Printable c
  nonempty : l ≠ []
  lesbar : hashDerZeile S l ≠ .fehler

theorem tragbar_zeile (kopf : List CodePoint) (e : Eintrag S) : Tragbar S (zeile S kopf e) where
  printable := printable_zeile kopf e
  nonempty := by
    obtain ⟨t, ht⟩ := zeile_eq_cons kopf e
    rw [ht]
    exact List.cons_ne_nil _ _
  lesbar := by
    rw [hashDerZeile_zeile]
    intro h
    cases h

/-- What is left of a line. -/
theorem tragbar_take (kopf : List CodePoint) (e : Eintrag S) {k : ℕ}
    (hk : (zeile S kopf e).take k ≠ []) : Tragbar S ((zeile S kopf e).take k) where
  printable c hc := printable_zeile kopf e c (List.mem_of_mem_take hc)
  nonempty := hk
  lesbar := by
    by_cases hrest : (zeile S kopf e).drop k = []
    · have hall := List.take_append_drop k (zeile S kopf e)
      rw [hrest, List.append_nil] at hall
      rw [hall]
      exact (tragbar_zeile kopf e).lesbar
    · rw [hashDerZeile_teil kopf e (List.take_append_drop k _).symm hrest]
      intro h
      cases h

/-! ## Files of lines with a part at the end -/

variable (S) in
/-- A text of lines and what a crash left of one. -/
def Gut (t : List Char) : Prop :=
  ∃ ls rest, t = unlines ls ++ rest ∧ (∀ l ∈ ls, Tragbar S l) ∧ (rest = [] ∨ Tragbar S rest)

theorem zeilen_unlines {ls : List (List Char)} (h : ∀ l ∈ ls, Tragbar S l) (t : List Char) :
    zeilen (unlines ls ++ t) = ls ++ zeilen t :=
  splitLines_unlines isLineBreak_newline
    (fun l hl c hc => ((h l hl).printable c hc).isLineBreak) t

theorem zeilen_rest {rest : List Char} (h : Tragbar S rest) : zeilen rest = [rest] := by
  cases rest with
  | nil => exact absurd rfl h.nonempty
  | cons c cs => exact splitLines_single fun d hd => (h.printable d hd).isLineBreak

/-- Every line of such a text can be read over. -/
theorem Gut.lesbar {t : List Char} (h : Gut S t) : ∀ l ∈ zeilen t, hashDerZeile S l ≠ .fehler := by
  obtain ⟨ls, rest, rfl, hls, hrest⟩ := h
  rw [zeilen_unlines hls]
  intro l hl
  rcases List.mem_append.mp hl with hl | hl
  · exact (hls l hl).lesbar
  · rcases hrest with rfl | hrest
    · cases hl
    · rw [zeilen_rest hrest, List.mem_singleton] at hl
      rw [hl]
      exact hrest.lesbar

/-- Such a text is made of whole lines when a line ends it. -/
theorem Gut.ganz {t : List Char} (h : Gut S t) (hend : endetGanz t = true) :
    ∃ ls, t = unlines ls ∧ ∀ l ∈ ls, Tragbar S l := by
  obtain ⟨ls, rest, rfl, hls, hrest⟩ := h
  rcases hrest with rfl | hrest
  · exact ⟨ls, List.append_nil _, hls⟩
  · obtain ⟨front, c, rfl⟩ := (List.eq_nil_or_concat rest).resolve_left hrest.nonempty
    rw [List.concat_eq_append] at hend hrest
    rw [endetGanz, ← List.append_assoc, List.getLast?_concat, Option.all_some, beq_iff_eq] at hend
    have hc := hrest.printable c (List.mem_append_right _ (.head _))
    rw [hend] at hc
    exact absurd hc.1 (by decide)

theorem gut_nil : Gut S [] := by
  refine ⟨[], [], rfl, ?_, .inl rfl⟩
  intro l hl
  cases hl

/-- What a crash leaves behind whole lines. -/
theorem gut_take {ls : List (List Char)} (hls : ∀ l ∈ ls, Tragbar S l) (kopf : List CodePoint)
    (e : Eintrag S) (k : ℕ) : Gut S (unlines ls ++ (zeile S kopf e ++ ['\n']).take k) := by
  rw [List.take_append]
  rcases Nat.lt_or_ge (zeile S kopf e).length k with hlt | hle
  · refine ⟨ls ++ [zeile S kopf e], [], ?_, ?_, .inl rfl⟩
    · rw [List.take_of_length_le hlt.le, List.take_of_length_le (by simp; omega), unlines_append,
        unlines_cons, unlines_nil, List.append_nil]
    · rw [List.forall_mem_append, List.forall_mem_singleton]
      exact ⟨hls, tragbar_zeile kopf e⟩
  · rw [Nat.sub_eq_zero_of_le hle, List.take_zero, List.append_nil]
    by_cases hnil : (zeile S kopf e).take k = []
    · exact ⟨ls, _, rfl, hls, .inl hnil⟩
    · exact ⟨ls, _, rfl, hls, .inr (tragbar_take kopf e hnil)⟩

/-! ## Writing to the newest file -/

/-- The newest file is the last one, and writing changes nothing before it. -/
theorem schreibe_neueste {ds : Dateien} {f : String} (hsorted : ds.Pairwise fun d d' => d.1 < d'.1)
    (hf : ∀ d ∈ ds, d.1 ≤ f) : ∃ vorne, (∀ d ∈ vorne, d ∈ ds ∧ d.1 < f) ∧
      (vorne.Pairwise fun d d' => d.1 < d'.1) ∧
      alleZeilen ds = alleZeilen vorne ++ zeilen (textVon f ds) ∧
      (textVon f ds = [] ∨ ∃ d ∈ ds, d.2 = textVon f ds) ∧
      ∀ t, schreibe f t ds = vorne ++ [(f, textVon f ds ++ t)] := by
  by_cases hmem : f ∈ ds.map Prod.fst
  · obtain ⟨⟨g, old⟩, hd, rfl⟩ := List.mem_map.mp hmem
    obtain ⟨vorne, hinten, rfl⟩ := List.append_of_mem hd
    obtain ⟨hvorne, hrest, hcross⟩ := List.pairwise_append.mp hsorted
    have hlt : ∀ d ∈ vorne, d.1 < g := fun d hd => hcross d hd _ (.head _)
    have hnotMem : g ∉ vorne.map Prod.fst := by
      intro h
      obtain ⟨d, hd, hg⟩ := List.mem_map.mp h
      exact (hlt d hd).ne hg
    obtain rfl : hinten = [] := by
      refine List.eq_nil_iff_forall_not_mem.mpr fun d hd => ?_
      exact absurd (hf d (List.mem_append_right _ (.tail _ hd)))
        (not_le.mpr ((List.pairwise_cons.mp hrest).1 d hd))
    have hnodup : ((vorne ++ [(g, old)]).map Prod.fst).Nodup := by
      rw [List.Nodup, List.pairwise_map]
      exact hsorted.imp fun h => h.ne
    have htext : textVon g (vorne ++ [(g, old)]) = old := by
      rw [textVon, (dictGet_eq_some_iff hnodup).mpr (List.mem_append_right _ (.head _))]
      rfl
    refine ⟨vorne, fun d hd => ⟨List.mem_append_left _ hd, hlt d hd⟩, hvorne, ?_, .inr ?_, ?_⟩
    · rw [htext, alleZeilen, List.flatMap_append, List.flatMap_singleton]
      rfl
    · exact ⟨_, List.mem_append_right _ (.head _), htext.symm⟩
    · intro t
      rw [schreibe, htext, dictSet_append_of_notMem _ hnotMem, dictSet, if_pos rfl]
  · have hget : textVon f ds = [] := by
      rw [textVon, dictGet, List.find?_eq_none.mpr]
      · rfl
      · intro d hd hdf
        exact hmem (by simpa using ⟨d.2, (of_decide_eq_true hdf) ▸ hd⟩)
    refine ⟨ds, fun d hd => ⟨hd, lt_of_le_of_ne (hf d hd) ?_⟩, hsorted, ?_, .inl hget, ?_⟩
    · rintro rfl
      exact hmem (List.mem_map_of_mem hd)
    · rw [hget]
      exact (List.append_nil _).symm
    · exact fun t => dictSet_of_notMem _ hmem

/-- The text of a day file grows by what is written to it. -/
theorem textVon_schreibe (f g : String) (t : List Char) (ds : Dateien) :
    textVon g (schreibe f t ds) = textVon g ds ++ if f = g then t else [] := by
  rw [schreibe, textVon, dictGet_dictSet]
  split
  next h => rw [h]; rfl
  next => exact (List.append_nil _).symm

/-- Files once written only grow. -/
theorem textVon_schritt (s : Zustand) (x : Schritt S) (g : String) :
    textVon g s.dateien <+: textVon g (schritt S s x).dateien := by
  cases x with
  | anhang f e =>
      rw [schritt, textVon_schreibe]
      exact List.prefix_append _ _
  | absturz f e k =>
      rw [schritt, nachAbsturz, textVon_schreibe]
      exact List.prefix_append _ _
  | neustart => exact List.prefix_refl _

theorem textVon_lauf (xs : List (Schritt S)) (s : Zustand) (g : String) :
    textVon g s.dateien <+: textVon g (lauf S s xs).dateien := by
  induction xs generalizing s with
  | nil => exact List.prefix_refl _
  | cons x xs ih => exact (textVon_schritt s x g).trans (ih _)

/-! ## Runs that go well -/

variable (S) in
/-- The day files are in order and made of lines, and the head is the hash of the last
complete record. -/
structure Stimmig (s : Zustand) : Prop where
  sortiert : s.dateien.Pairwise fun d d' => d.1 < d'.1
  gut : ∀ d ∈ s.dateien, Gut S d.2
  kopf : s.kopf = letzterHash S s.dateien

theorem stimmig_leer : Stimmig S leer where
  sortiert := List.Pairwise.nil
  gut := by
    intro d hd
    cases hd
  kopf := rfl

/-- What is written behind a file of lines, and what the whole log becomes by it. -/
theorem Stimmig.schreibe {s : Zustand} (h : Stimmig S s) {f : String}
    (hf : ∀ d ∈ s.dateien, d.1 ≤ f) (hend : endetGanz (textVon f s.dateien) = true) :
    ∃ vorne ls, textVon f s.dateien = unlines ls ∧ (∀ l ∈ ls, Tragbar S l) ∧
      alleZeilen s.dateien = alleZeilen vorne ++ ls ∧
      ∀ t, Gut S (unlines ls ++ t) →
        (Absturz.schreibe f t s.dateien).Pairwise (fun d d' => d.1 < d'.1) ∧
        (∀ d ∈ Absturz.schreibe f t s.dateien, Gut S d.2) ∧
        alleZeilen (Absturz.schreibe f t s.dateien) = alleZeilen vorne ++ ls ++ zeilen t := by
  obtain ⟨vorne, hvorne, hsorted, halle, htext, hwrite⟩ := schreibe_neueste h.sortiert hf
  have hgut : Gut S (textVon f s.dateien) := by
    rcases htext with hnil | ⟨d, hd, heq⟩
    · rw [hnil]
      exact gut_nil
    · rw [← heq]
      exact h.gut d hd
  obtain ⟨ls, hls, htragbar⟩ := hgut.ganz hend
  have hzeilen : zeilen (unlines ls) = ls := by
    have hnil := zeilen_unlines htragbar []
    rw [List.append_nil] at hnil
    exact hnil.trans (List.append_nil ls)
  refine ⟨vorne, ls, hls, htragbar, by rw [halle, hls, hzeilen], fun t ht => ?_⟩
  rw [hwrite, hls]
  refine ⟨?_, ?_, ?_⟩
  · refine List.pairwise_append.mpr ⟨hsorted, List.pairwise_singleton _ _, fun d hd d' hd' => ?_⟩
    rw [List.mem_singleton.mp hd']
    exact (hvorne d hd).2
  · intro d hd
    rcases List.mem_append.mp hd with hd | hd
    · exact h.gut d (hvorne d hd).1
    · rw [List.mem_singleton.mp hd]
      exact ht
  · rw [alleZeilen, List.flatMap_append, List.flatMap_singleton, zeilen_unlines htragbar,
      ← List.append_assoc]
    rfl

theorem gut_anhang {ls : List (List Char)} (hls : ∀ l ∈ ls, Tragbar S l) (kopf : List CodePoint)
    (e : Eintrag S) : Gut S (unlines ls ++ (zeile S kopf e ++ ['\n'])) := by
  have htake := gut_take hls kopf e (zeile S kopf e ++ ['\n']).length
  rw [List.take_length] at htake
  exact htake

/-- The record that is written stands on a line of its own. -/
theorem zeilen_zeile (kopf : List CodePoint) (e : Eintrag S) (t : List Char) :
    zeilen (zeile S kopf e ++ ['\n'] ++ t) = zeile S kopf e :: zeilen t := by
  have h := zeilen_unlines (List.forall_mem_singleton.mpr (tragbar_zeile kopf e)) t
  rw [unlines_cons, unlines_nil] at h
  exact h

/-- A step keeps the files in order and the head at the last complete record. -/
theorem Stimmig.schritt {s : Zustand} (h : Stimmig S s) {x : Schritt S} (hx : Zulaessig S s x) :
    Stimmig S (schritt S s x) := by
  cases x with
  | anhang f e =>
      obtain ⟨vorne, ls, -, hls, -, hwrite⟩ := h.schreibe hx.1 hx.2
      obtain ⟨hsorted, hgut, halle⟩ := hwrite _ (gut_anhang hls s.kopf e)
      refine ⟨hsorted, hgut, ?_⟩
      have hzeile := zeilen_zeile s.kopf e []
      rw [List.append_nil] at hzeile
      rw [Absturz.schritt]
      dsimp only
      rw [letzterHash, halle, hzeile, hashes_append, hashes, hashes,
        List.filterMap_cons_some (by rw [hashDerZeile_zeile]; rfl), List.getLast?_append]
      rfl
  | absturz f e k =>
      obtain ⟨vorne, ls, -, hls, -, hwrite⟩ := h.schreibe hx.1.1 hx.1.2
      obtain ⟨hsorted, hgut, -⟩ := hwrite _ (gut_take hls s.kopf e k)
      exact ⟨hsorted, hgut, recoverLastHash_eq hsorted fun d hd => ⟨(hgut d hd).lesbar, hx.2 d hd⟩⟩
  | neustart =>
      exact ⟨h.sortiert, h.gut,
        recoverLastHash_eq h.sortiert fun d hd => ⟨(h.gut d hd).lesbar, hx d hd⟩⟩

theorem Stimmig.lauf {xs : List (Schritt S)} {s : Zustand} (h : Stimmig S s)
    (hxs : LaufZulaessig S s xs) : Stimmig S (lauf S s xs) := by
  induction xs generalizing s with
  | nil => exact h
  | cons x xs ih => exact ih (h.schritt hxs.1) hxs.2

theorem LaufZulaessig.append {xs ys : List (Schritt S)} {s : Zustand}
    (h : LaufZulaessig S s (xs ++ ys)) :
    LaufZulaessig S s xs ∧ LaufZulaessig S (Absturz.lauf S s xs) ys := by
  induction xs generalizing s with
  | nil => exact ⟨trivial, h⟩
  | cons x xs ih => exact ⟨⟨h.1, (ih h.2).1⟩, (ih h.2).2⟩

/-- A hash that is read back is written again as it was. -/
theorem decode_encode_letzterHash (ds : Dateien) :
    decode (encode (letzterHash S ds)) = letzterHash S ds := by
  have hform : ∃ us, letzterHash S ds = decode us := by
    rw [letzterHash]
    cases hlast : (hashes S (alleZeilen ds)).getLast? with
    | none => exact ⟨unitsOfText (List.replicate 64 '0'),
        (decode_encode fun c hc => not_half_of_mem_ofText hc).symm⟩
    | some g =>
        obtain ⟨l, -, hl⟩ := List.mem_filterMap.mp (List.mem_of_getLast? hlast)
        obtain ⟨us, hus⟩ := decode_of_hashDerZeile hl
        exact ⟨us, hus⟩
  obtain ⟨us, hus⟩ := hform
  rw [hus, encode_decode]

/-- A run that goes well up to a record, and the record in the file ever after. -/
theorem lauf_anhang (vor nach : List (Schritt S)) (f : String) (e : Eintrag S)
    (h : LaufZulaessig S leer (vor ++ .anhang f e :: nach)) :
    (∃ felder us, loads S.toFloats (zeile S (lauf S leer vor).kopf e) = some (.obj felder) ∧
      dictGet (feld "prev_hash") felder = some (.str us) ∧
      decode us = letzterHash S (lauf S leer vor).dateien) ∧
    ∃ danach, zeilen (textVon f (lauf S leer (vor ++ .anhang f e :: nach)).dateien) =
      zeilen (textVon f (lauf S leer vor).dateien) ++
        zeile S (lauf S leer vor).kopf e :: danach := by
  obtain ⟨hvor, hx, -⟩ := h.append
  have hstimmig := stimmig_leer.lauf hvor
  refine ⟨⟨_, _, loads_zeile _ e, dictGet_prev_hash _ e, ?_⟩, ?_⟩
  · rw [hstimmig.kopf]
    exact decode_encode_letzterHash _
  · obtain ⟨-, ls, htext, hls, -, -⟩ := hstimmig.schreibe hx.1 hx.2
    obtain ⟨mehr, hmehr⟩ := textVon_lauf nach (schritt S (lauf S leer vor) (.anhang f e)) f
    refine ⟨zeilen mehr, ?_⟩
    have hrun : lauf S leer (vor ++ .anhang f e :: nach) =
        lauf S (schritt S (lauf S leer vor) (.anhang f e)) nach := by
      rw [lauf, List.foldl_append]
      rfl
    have hnil := zeilen_unlines hls []
    rw [List.append_nil] at hnil
    rw [hrun, ← hmehr, schritt, textVon_schreibe, if_pos rfl, htext, List.append_assoc,
      zeilen_unlines hls, zeilen_zeile, hnil]
    exact congrArg (· ++ _) (List.append_nil ls).symm

/-! ## An example -/

/-- Floats of which only `NaN` is written. -/
def nurNaN : Floats where
  F := Unit
  text _ := "NaN".toList
  ofText _ := ()
  ofText_text _ := rfl
  text_shape _ := .inl (by decide)

/-- The hash of the first record of the example. -/
def ersterHash : List Char :=
  "012b697b48ccfc974a433c80d1daf6cf".toList ++ "9ec38cd367629c1bb9f18adc811da2f8".toList

/-- SHA-256 where the example calls it, and no signature. -/
def schrift : Schrift where
  toFloats := nurNaN
  sha256 felder :=
    if print nurNaN (.obj felder) = "\x7b\"prev_hash\": \"".toList ++ List.replicate 64 '0' ++
      "\", \"symbol\": \"AAPL\"\x7d".toList then ersterHash else List.replicate 64 '0'
  laenge felder := by
    split
    · decide
    · rfl
  signWormHash _ := .null

def aktie : Eintrag schrift where
  felder := [(feld "symbol", .str (feld "AAPL"))]
  verschieden := List.nodup_singleton _

def ersterTag : String := "audit_log_2026-01-01.jsonl"

def zweiterTag : String := "audit_log_2026-01-02.jsonl"

theorem zulaessig_zweiterTag :
    LaufZulaessig schrift leer ([.absturz ersterTag aktie 5] ++ [.anhang zweiterTag aktie]) := by
  have hfile : nachAbsturz schrift leer ersterTag aktie 5 =
      [(ersterTag, (zeile schrift nullHash aktie ++ ['\n']).take 5)] := rfl
  refine ⟨⟨⟨?_, rfl⟩, ?_⟩, ⟨?_, ?_⟩, trivial⟩
  · intro d hd
    cases hd
  · intro d hd
    rw [hfile, List.mem_singleton] at hd
    have hlen : d.2.length ≤ 5 := by
      rw [hd]
      exact List.length_take_le _ _
    exact .inr (.inl (by omega))
  · intro d hd
    change d ∈ nachAbsturz schrift leer ersterTag aktie 5 at hd
    rw [hfile, List.mem_singleton] at hd
    rw [hd]
    decide
  · rfl

/-- After a crash on one day, the first record of the next day. -/
theorem zweiterTag_anhang :
    (∃ felder us, loads schrift.toFloats
        (zeile schrift (lauf schrift leer [.absturz ersterTag aktie 5]).kopf aktie) =
          some (.obj felder) ∧
      dictGet (feld "prev_hash") felder = some (.str us) ∧
      decode us =
        letzterHash schrift (lauf schrift leer [.absturz ersterTag aktie 5]).dateien) ∧
    ∃ danach, zeilen (textVon zweiterTag (lauf schrift leer
        ([.absturz ersterTag aktie 5] ++ [.anhang zweiterTag aktie])).dateien) =
      zeilen (textVon zweiterTag (lauf schrift leer [.absturz ersterTag aktie 5]).dateien) ++
        zeile schrift (lauf schrift leer [.absturz ersterTag aktie 5]).kopf aktie :: danach :=
  lauf_anhang [.absturz ersterTag aktie 5] [] zweiterTag aktie zulaessig_zweiterTag

/-- A record behind a part of a line stands on no line of its own. -/
theorem zeile_notMem (kopf kopf' : List CodePoint) (e e' : Eintrag S) {k : ℕ}
    (hk : (zeile S kopf e).take k ≠ []) : zeile S kopf' e' ∉
      zeilen ((zeile S kopf e).take k ++ (zeile S kopf' e' ++ ['\n'])) := by
  have hprint : ∀ c ∈ (zeile S kopf e).take k ++ zeile S kopf' e', isLineBreak c = false := by
    intro c hc
    rcases List.mem_append.mp hc with hc | hc
    · exact (printable_zeile kopf e c (List.mem_of_mem_take hc)).isLineBreak
    · exact (printable_zeile kopf' e' c hc).isLineBreak
  have hline := splitLines_unlines isLineBreak_newline (List.forall_mem_singleton.mpr hprint) []
  rw [unlines_cons, unlines_nil, List.append_nil] at hline
  rw [← List.append_assoc, zeilen, hline]
  intro h
  have hlen := congrArg List.length (List.mem_singleton.mp h)
  rw [List.length_append] at hlen
  exact hk (List.length_eq_zero_iff.mp (by omega))

/-- After a crash, the first record of the same day. -/
theorem ersterTag_anhang :
    zeile schrift (lauf schrift leer [.absturz ersterTag aktie 5]).kopf aktie ∉
      zeilen (textVon ersterTag (lauf schrift leer
        [.absturz ersterTag aktie 5, .anhang ersterTag aktie]).dateien) := by
  obtain ⟨t, ht⟩ := zeile_eq_cons nullHash aktie
  have hk : (zeile schrift nullHash aktie).take 5 ≠ [] := by
    rw [ht]
    exact List.cons_ne_nil _ _
  have hlong : 5 ≤ (zeile schrift nullHash aktie).length := by decide +kernel
  have htake : (zeile schrift nullHash aktie ++ ['\n']).take 5 =
      (zeile schrift nullHash aktie).take 5 := List.take_append_of_le_length hlong
  have h := zeile_notMem nullHash (lauf schrift leer [.absturz ersterTag aktie 5]).kopf
    aktie aktie hk
  rw [← htake] at h
  exact h

end Absturz
