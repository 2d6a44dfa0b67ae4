import ScriptEngine.Proofs.SplitTexts

/-! # Lines of files

Lines are written with line feeds between them and read up to the line feeds that end them. The two
agree except after the last line, where nothing is read if nothing was written. -/

namespace ScriptEngine

/-! ### Lines of a text -/

namespace Text

variable {line cs : List Char}

/-- The line ends nowhere inside. -/
def Unbroken (line : List Char) : Prop :=
  '\n' ∉ line ∧ '\r' ∉ line

instance (line : List Char) : Decidable (Unbroken line) :=
  inferInstanceAs (Decidable ('\n' ∉ line ∧ '\r' ∉ line))

theorem linesFrom_append (h : '\n' ∉ line) (before cs : List Char) :
    linesFrom before (line ++ cs) = linesFrom (line.reverse ++ before) cs := by
  induction line generalizing before with
  | nil => rfl
  | cons c line ih =>
    obtain ⟨hc, hline⟩ := not_or.mp (mt List.mem_cons.mpr h)
    have hnext : linesFrom before (c :: (line ++ cs)) = linesFrom (c :: before) (line ++ cs) := by
      rw [linesFrom]
      exact fun heq => hc heq.symm
    rw [List.cons_append, hnext, ih hline, List.reverse_cons, List.append_assoc]
    rfl

theorem dropReturn_of_not_mem (h : '\r' ∉ line) : dropReturn line = line := by
  unfold dropReturn
  split
  · rename_i rest hreverse
    exact absurd (List.mem_reverse.mp (hreverse ▸ List.mem_cons_self)) h
  · rfl

theorem lines_append (h : Unbroken line) (cs : List Char) :
    lines (line ++ '\n' :: cs) = line :: lines cs := by
  rw [lines, linesFrom_append h.1, List.append_nil, linesFrom, List.reverse_reverse,
    dropReturn_of_not_mem h.2]
  rfl

theorem lines_of_unbroken (h : Unbroken line) :
    lines line = if line = [] then [] else [line] := by
  have hall := linesFrom_append h.1 [] []
  rw [List.append_nil, List.append_nil] at hall
  rw [lines, hall, linesFrom, List.reverse_reverse, List.isEmpty_reverse]
  cases line <;> rfl

/-- Lines written with line feeds between them are read back, without an empty last one. -/
theorem lines_join {written : List (List Char)} (h : ∀ line ∈ written, Unbroken line) :
    lines (join ['\n'] written) =
      if written.getLast? = some [] then written.dropLast else written := by
  induction written with
  | nil => rfl
  | cons line more ih =>
    obtain ⟨hline, hmore⟩ := List.forall_mem_cons.mp h
    cases more with
    | nil =>
      rw [join, lines_of_unbroken hline, List.getLast?_singleton]
      simp only [Option.some.injEq, List.dropLast_singleton]
    | cons next more =>
      rw [join_cons line (List.cons_ne_nil next more), List.append_assoc, List.singleton_append,
        lines_append hline, ih hmore]
      simp only [List.getLast?_cons_cons, List.dropLast_cons_cons]
      split <;> rfl

end Text

/-! ### Files that were written -/

namespace FileTree

variable {t : FileTree} {p q place : Location} {content : FileContent}

theorem content?_put_self (t : FileTree) (content : FileContent) (hp : p ≠ []) :
    (t.put p content).content? p = some content := by
  have hplace : p.isEmpty = false := List.isEmpty_eq_false_iff.mpr hp
  simp [content?, put, hplace]

theorem content?_put_ne (t : FileTree) (content : FileContent) (h : q ≠ p) :
    (t.put p content).content? q = t.content? q := by
  have hold : (t.entries.filter (·.1 ≠ p)).find? (·.1 = q) = t.entries.find? (·.1 = q) := by
    rw [List.find?_filter]
    congr 1
    funext entry
    by_cases hentry : entry.1 = q <;> simp [hentry, h]
  simp only [content?, put, List.find?_cons, Ne.symm h, decide_false, hold]

theorem content?_of_enter {part : String} (h : t.enter place part = .ok q) :
    t.content? place = some .directory := by
  rw [enter] at h
  split at h
  · cases h
  · cases h
  · assumption

/-- What is put where no directory stood is on no path. -/
theorem enter_put (hp : t.content? p ≠ some .directory) {part : String}
    (h : t.enter place part = .ok q) : (t.put p content).enter place part = .ok q := by
  have hplace : place ≠ p := fun heq => hp (heq ▸ content?_of_enter h)
  rw [enter, content?_put_ne t content hplace]
  exact h

theorem follow_put (hp : t.content? p ≠ some .directory) {parts : List String}
    (h : t.follow place parts = .ok q) : (t.put p content).follow place parts = .ok q := by
  induction parts generalizing place with
  | nil => exact h
  | cons part more ih =>
    rw [follow] at h ⊢
    split at h
    · rename_i next hnext
      rw [enter_put hp hnext]
      exact ih h
    · cases h

theorem follow_append {ps : List String} (h : t.follow place ps = .ok q) (qs : List String) :
    t.follow place (ps ++ qs) = t.follow q qs := by
  induction ps generalizing place with
  | nil =>
    obtain rfl := Except.ok.inj h
    rfl
  | cons part more ih =>
    rw [follow] at h
    rw [List.cons_append, follow]
    split at h
    · exact ih h
    · cases h

/-- The place for a new entry is where the path leads. -/
theorem follow_of_locateNew {parts : List String} (h : t.locateNew place parts = .ok q) :
    t.follow place parts = .ok q := by
  rw [locateNew] at h
  split at h
  · cases h
  rename_i name hlast
  split at h
  · cases h
  rename_i directory hdirectory
  split at h
  · cases h
  rename_i target henter
  have htarget : target = q := by
    split at h
    · cases h
    split at h
    · cases h
    exact Except.ok.inj h
  rw [← List.dropLast_append_getLast? name hlast, follow_append hdirectory, follow, henter,
    ← htarget]
  rfl

/-- A file that was written holds the text. -/
theorem readText_of_writeText {t' : FileTree} {path text : String}
    (h : t.writeText path text = .ok t') : t'.readText path = .ok text := by
  rw [writeText] at h
  split at h
  · cases h
  rename_i place parts hstart
  split at h
  · cases h
  rename_i target htarget
  split at h
  · cases h
  rename_i hfree
  obtain rfl := Except.ok.inj h
  have hnonempty : target ≠ [] := by
    rintro rfl
    exact hfree rfl
  have hlocate : (t.put target (.file text.toUTF8)).locate path = .ok target := by
    have hsame : (t.put target (.file text.toUTF8)).start path = t.start path := rfl
    rw [locate, hsame, hstart]
    exact follow_put hfree (follow_of_locateNew htarget)
  have htext : String.fromUTF8? text.toUTF8 = some text := by
    have hvalid : text.toUTF8.IsValidUTF8 := text.isValidUTF8
    rw [String.fromUTF8?, dif_pos hvalid]
    rfl
  rw [readText, readBytes, find, hlocate]
  simp only [content?_put_self t _ hnonempty, htext]

end FileTree

namespace Methods

open Run

/-- The lines that are read of a text that was written line by line. -/
theorem lines_joinStrings {written : List String}
    (h : ∀ line ∈ written, Text.Unbroken line.toList) :
    (Text.lines (Text.joinStrings "\n" written).toList).map String.ofList =
      if written.getLast? = some "" then written.dropLast else written := by
  have hunbroken : ∀ line ∈ written.map String.toList, Text.Unbroken line := by
    intro line hline
    obtain ⟨s, hs, rfl⟩ := List.mem_map.mp hline
    exact h s hs
  have hlast : (written.map String.toList).getLast? = some [] ↔ written.getLast? = some "" := by
    rw [List.getLast?_map, Option.map_eq_some_iff]
    constructor
    · rintro ⟨s, hs, hempty⟩
      rw [hs, String.toList_eq_nil_iff.mp hempty]
    · intro hs
      exact ⟨"", hs, rfl⟩
  have hsame : String.ofList ∘ String.toList = id := funext fun _ => String.ofList_toList
  have hnewline : "\n".toList = ['\n'] := rfl
  rw [Text.joinStrings, String.toList_ofList, hnewline, Text.lines_join hunbroken]
  simp only [hlast]
  split
  · rw [← List.map_dropLast, List.map_map, hsame, List.map_id]
  · rw [List.map_map, hsame, List.map_id]

theorem writeLines_eq {l : ListRef} {written : List String} {w : World}
    (hl : w.heap.Lists l written) (path : String) :
    fileMethod .writeLines path [.list l] w =
      (keepFiles (w.files.writeText path (Text.joinStrings "\n" written)) >>= newBool) w := by
  rw [← w.heap.map_display hl]
  rfl

theorem files_of_writeLines {path : String} {l : ListRef} {written : List String} {w w' : World}
    {stamp : Nat} (hl : w.heap.Lists l written)
    (h : fileMethod .writeLines path [.list l] w = .done (.number stamp (.ofBool true)) w') :
    w.files.writeText path (Text.joinStrings "\n" written) = .ok w'.files := by
  rw [writeLines_eq hl] at h
  cases hresult : w.files.writeText path (Text.joinStrings "\n" written) with
  | ok files =>
    rw [hresult] at h
    obtain ⟨-, rfl⟩ := Outcome.done.inj h
    rfl
  | error e =>
    rw [hresult] at h
    obtain ⟨hvalue, -⟩ := Outcome.done.inj h
    exact absurd (Value.number.inj hvalue).2 (by decide +kernel)

/-- Lines that were written to a file are read back, except for one empty line at the end. -/
theorem written_lines_read_back (path : String) (l : ListRef) (written : List String)
    (w w' : World) (stamp : Nat) (hl : w.heap.Lists l written)
    (hlines : ∀ line ∈ written, Text.Unbroken line.toList)
    (hwrote : fileMethod .writeLines path [.list l] w = .done (.number stamp (.ofBool true)) w')
    (u : World) (hfiles : u.files = w'.files) :
    ∃ l' u', fileMethod .readAllLines path [] u = .done (.list l') u' ∧
      u'.heap.Lists l' (if written.getLast? = some "" then written.dropLast else written) := by
  have hread : u.files.readText path = .ok (Text.joinStrings "\n" written) := by
    rw [hfiles]
    exact FileTree.readText_of_writeText (files_of_writeLines hl hwrote)
  obtain ⟨l', h, hnew, hl'⟩ := newTexts_done
    (if written.getLast? = some "" then written.dropLast else written) u
  refine ⟨l', { u with heap := h }, ?_, hl'⟩
  have hreads : fileMethod .readAllLines path [] u =
      newTexts ((Text.lines (Text.joinStrings "\n" written).toList).map String.ofList) u := by
    unfold fileMethod
    simp only [Bind.bind, andThen, world, hread]
  rw [hreads, lines_joinStrings hlines]
  exact hnew

/-- Of three lines, of which the last two are empty, the first two are read. -/
theorem written_lines_read_back_empty : ∃ l w w' stamp l' u',
    w.heap.Lists l ["a", "", ""] ∧
      fileMethod .writeLines "f" [.list l] w = .done (.number stamp (.ofBool true)) w' ∧
      fileMethod .readAllLines "f" [] w' = .done (.list l') u' ∧ u'.heap.Lists l' ["a", ""] := by
  obtain ⟨l, h, -, hl⟩ := newTexts_done ["a", "", ""] (.bare {})
  let w : World := { World.bare {} with heap := h }
  have hwritable : (w.files.writeText "f" (Text.joinStrings "\n" ["a", "", ""])).isOk = true := by
    show (FileTree.empty.writeText "f" (Text.joinStrings "\n" ["a", "", ""])).isOk = true
    decide +kernel
  obtain ⟨files, hfiles⟩ : ∃ files,
      w.files.writeText "f" (Text.joinStrings "\n" ["a", "", ""]) = .ok files := by
    cases hresult : w.files.writeText "f" (Text.joinStrings "\n" ["a", "", ""]) with
    | ok files => exact ⟨files, rfl⟩
    | error e =>
      rw [hresult] at hwritable
      cases hwritable
  have hwrote : fileMethod .writeLines "f" [.list l] w = .done (.number h.newStamp.1 (.ofBool true))
      { w with heap := h.newStamp.2, files := files } := by
    rw [writeLines_eq hl, hfiles]
    rfl
  obtain ⟨l', u', hread, hl'⟩ := written_lines_read_back "f" l ["a", "", ""] w _ _ hl
    (by decide) hwrote _ rfl
  exact ⟨l, w, _, _, l', u', hl, hwrote, hread, hl'⟩

end Methods

end ScriptEngine
