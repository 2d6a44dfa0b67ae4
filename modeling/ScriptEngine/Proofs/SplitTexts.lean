import Mathlib
import ScriptEngine.Engine
import ScriptEngine.Proofs.HeapShape

/-! # Splitting and joining

A text is cut at the leftmost occurrences of a separator, and none is left in the pieces, so joining
the pieces with it gives the text back. The method that scripts call drops empty pieces at the end,
and with them as many separators. -/

namespace ScriptEngine

/-! ### Pieces -/

namespace Text

variable {sep cs : List Char} {c : Char} {ps : List (List Char)}

/-- Characters that are still to be dropped are just left out. -/
theorem splitFrom_eq_split_drop (sep : List Char) (n : Nat) (cs : List Char) :
    splitFrom sep n cs = split sep (cs.drop n) := by
  induction cs generalizing n with
  | nil => cases n <;> simp only [List.drop_nil, split, splitFrom]
  | cons c cs ih =>
    cases n with
    | zero => rfl
    | succ n => rw [splitFrom, ih, List.drop_succ_cons]

theorem split_ne_nil (sep cs : List Char) : split sep cs ≠ [] := by
  cases cs with
  | nil => exact List.cons_ne_nil _ _
  | cons c cs =>
    rw [split, splitFrom]
    split
    · exact List.cons_ne_nil _ _
    · split <;> exact List.cons_ne_nil _ _

theorem split_append (hsep : sep ≠ []) (cs : List Char) :
    split sep (sep ++ cs) = [] :: split sep cs := by
  obtain ⟨d, ds, rfl⟩ := List.exists_cons_of_ne_nil hsep
  have hfound : (d :: ds).isPrefixOf (d :: (ds ++ cs)) = true :=
    List.isPrefixOf_iff_prefix.mpr (List.prefix_append (d :: ds) cs)
  rw [split, List.cons_append, splitFrom, if_pos hfound, splitFrom_eq_split_drop,
    List.length_cons, Nat.add_sub_cancel, List.drop_left]

/-- Where the separator does not begin, the character belongs to the piece that follows. -/
theorem split_cons (h : ¬ sep <+: c :: cs) :
    ∃ p ps, split sep cs = p :: ps ∧ split sep (c :: cs) = (c :: p) :: ps := by
  obtain ⟨p, ps, hsplit⟩ := List.exists_cons_of_ne_nil (split_ne_nil sep cs)
  have hnot : ¬ sep.isPrefixOf (c :: cs) = true := mt List.isPrefixOf_iff_prefix.mp h
  refine ⟨p, ps, hsplit, ?_⟩
  rw [split] at hsplit
  rw [split, splitFrom, if_neg hnot, hsplit]

/-- A text is empty, or it begins with the separator or with another character. -/
theorem split_induction {motive : List Char → Prop} (hsep : sep ≠ []) (nil : motive [])
    (found : ∀ cs, motive cs → motive (sep ++ cs))
    (kept : ∀ c cs, ¬ sep <+: c :: cs → motive cs → motive (c :: cs)) (cs : List Char) :
    motive cs := by
  induction hlength : cs.length using Nat.strongRecOn generalizing cs with
  | ind n ih =>
    cases cs with
    | nil => exact nil
    | cons c cs =>
      by_cases hfound : sep <+: c :: cs
      · obtain ⟨rest, hrest⟩ := hfound
        have hpos := List.length_pos_of_ne_nil hsep
        rw [← hrest, List.length_append] at hlength
        exact hrest ▸ found rest (ih _ (by omega) rest rfl)
      · exact kept c cs hfound (ih _ (by rw [← hlength]; exact Nat.lt_succ_self _) cs rfl)

theorem join_cons (p : List Char) (h : ps ≠ []) : join sep (p :: ps) = p ++ sep ++ join sep ps := by
  obtain ⟨q, qs, rfl⟩ := List.exists_cons_of_ne_nil h
  rfl

theorem join_cons_cons (c : Char) (p : List Char) (ps : List (List Char)) :
    join sep ((c :: p) :: ps) = c :: join sep (p :: ps) := by
  cases ps <;> rfl

theorem join_split (hsep : sep ≠ []) (cs : List Char) : join sep (split sep cs) = cs := by
  induction cs using split_induction hsep with
  | nil => rfl
  | found cs ih =>
    rw [split_append hsep, join_cons _ (split_ne_nil sep cs), List.nil_append, ih]
  | kept c cs h ih =>
    obtain ⟨p, ps, hsplit, hcons⟩ := split_cons h
    rw [hcons, join_cons_cons, ← hsplit, ih]

theorem prefix_join (p : List Char) (ps : List (List Char)) : p <+: join sep (p :: ps) := by
  cases ps with
  | nil => exact List.prefix_rfl
  | cons q qs =>
    rw [join_cons p (List.cons_ne_nil q qs), List.append_assoc]
    exact List.prefix_append _ _

theorem not_infix_of_mem_split (hsep : sep ≠ []) (cs : List Char) :
    ∀ piece ∈ split sep cs, ¬ sep <:+: piece := by
  induction cs using split_induction hsep with
  | nil =>
    intro piece hpiece
    rw [List.mem_singleton.mp hpiece]
    exact fun h => hsep (List.infix_nil.mp h)
  | found cs ih =>
    rw [split_append hsep]
    exact List.forall_mem_cons.mpr ⟨fun h => hsep (List.infix_nil.mp h), ih⟩
  | kept c cs h ih =>
    obtain ⟨p, ps, hsplit, hcons⟩ := split_cons h
    rw [hsplit] at ih
    obtain ⟨hfirst, hmore⟩ := List.forall_mem_cons.mp ih
    rw [hcons]
    refine List.forall_mem_cons.mpr ⟨fun hinfix => ?_, hmore⟩
    -- It would begin with the character, where it does not, or lie in the piece that follows.
    rcases List.infix_cons_iff.mp hinfix with hstart | hlater
    · refine h (hstart.trans ?_)
      have hall : c :: p <+: join sep ((c :: p) :: ps) := prefix_join _ ps
      rwa [← hcons, join_split hsep] at hall
    · exact hfirst hlater

/-- Each empty piece at the end stands for one more separator. -/
theorem join_append_replicate (h : ps ≠ []) (k : Nat) :
    join sep (ps ++ List.replicate k []) = join sep ps ++ (List.replicate k sep).flatten := by
  induction k generalizing ps with
  | zero => simp
  | succ k ih =>
    have hone : join sep (ps ++ [[]]) = join sep ps ++ sep := by
      induction ps with
      | nil => exact absurd rfl h
      | cons p ps ihp =>
        cases ps with
        | nil => simp [join]
        | cons q qs =>
          have hmore := ihp (List.cons_ne_nil q qs)
          rw [List.cons_append, join_cons p (by simp), hmore, join_cons p (List.cons_ne_nil q qs)]
          simp only [List.append_assoc]
    rw [List.replicate_succ, List.append_cons, ih (by simp), hone, List.replicate_succ,
      List.flatten_cons, List.append_assoc]

end Text

namespace Methods

variable {ps : List (List Char)}

/-- Only empty pieces are dropped. -/
theorem dropEmptyEnd_append_replicate (ps : List (List Char)) :
    ∃ k, ps = dropEmptyEnd ps ++ List.replicate k [] := by
  cases ps with
  | nil => exact ⟨0, rfl⟩
  | cons p ps =>
    have hempty : ∀ piece ∈ ps.rtakeWhile List.isEmpty, piece = [] := fun piece hpiece =>
      List.isEmpty_iff.mp (List.mem_rtakeWhile_imp hpiece)
    refine ⟨(ps.rtakeWhile List.isEmpty).length, ?_⟩
    rw [← List.eq_replicate_of_mem hempty]
    exact congrArg (p :: ·) (List.rdropWhile_append_rtakeWhile ..).symm

theorem dropEmptyEnd_ne_nil (h : ps ≠ []) : dropEmptyEnd ps ≠ [] := by
  obtain ⟨p, ps, rfl⟩ := List.exists_cons_of_ne_nil h
  exact List.cons_ne_nil _ _

/-- Of several pieces that are left, the last is not empty. -/
theorem length_dropEmptyEnd (h : (dropEmptyEnd ps).getLast? = some []) :
    (dropEmptyEnd ps).length = 1 := by
  cases ps with
  | nil => cases h
  | cons p ps =>
    have hkept : dropEmptyEnd (p :: ps) = p :: ps.rdropWhile List.isEmpty := rfl
    rw [hkept] at h ⊢
    by_cases hmore : ps.rdropWhile List.isEmpty = []
    · rw [hmore]
      rfl
    · have hlast := List.rdropWhile_last_not List.isEmpty ps hmore
      rw [List.getLast?_cons, List.getLast?_eq_some_getLast hmore] at h
      exact absurd (List.isEmpty_iff.mpr (Option.some.inj h)) hlast

end Methods

/-! ### Lists of texts -/

/-- The items of the list are these texts. -/
def Heap.Lists (h : Heap) (l : ListRef) (texts : List String) : Prop :=
  (h.items l).toList.map Value.text? = texts.map some

theorem Heap.display_text (h : Heap) (stamp : Nat) (s : String) :
    h.display (.text stamp s) = s := by
  unfold display
  cases h.lists.size <;> rfl

theorem Heap.map_display (h : Heap) {vs : List Value} {texts : List String}
    (hvs : vs.map Value.text? = texts.map some) : vs.map h.display = texts := by
  induction vs generalizing texts with
  | nil =>
    cases texts with
    | nil => rfl
    | cons s texts => cases hvs
  | cons v vs ih =>
    cases texts with
    | nil => cases hvs
    | cons s texts =>
      obtain ⟨hv, hmore⟩ := List.cons.inj hvs
      cases v with
      | text stamp t =>
        obtain rfl := Option.some.inj hv
        rw [List.map_cons, h.display_text, ih hmore]
      | _ => cases hv

namespace Run

theorem mapAll_newText (texts : List String) (w : World) :
    ∃ vs h, mapAll newText texts w = .done vs { w with heap := h } ∧
      vs.map Value.text? = texts.map some := by
  induction texts generalizing w with
  | nil => exact ⟨[], w.heap, rfl, rfl⟩
  | cons s texts ih =>
    obtain ⟨vs, h, hvs, htexts⟩ := ih { w with heap := w.heap.newStamp.2 }
    refine ⟨.text w.heap.newStamp.1 s :: vs, h, ?_, congrArg (some s :: ·) htexts⟩
    show (mapAll newText texts >>= fun vs => Run.done (.text w.heap.newStamp.1 s :: vs))
      { w with heap := w.heap.newStamp.2 } = _
    simp only [Bind.bind, andThen, hvs]
    rfl

/-- The texts are put into a new list. -/
theorem newTexts_done (texts : List String) (w : World) :
    ∃ l h, newTexts texts w = .done (.list l) { w with heap := h } ∧ h.Lists l texts := by
  obtain ⟨vs, h, hvs, htexts⟩ := mapAll_newText texts w
  refine ⟨(h.newList vs.toArray).1, (h.newList vs.toArray).2, ?_, ?_⟩
  · simp only [newTexts, Bind.bind, andThen, hvs]
    rfl
  · have hnew : (h.newList vs.toArray).1.index = h.lists.size := rfl
    rw [Heap.Lists, Heap.items_newList, if_pos hnew]
    exact htexts

end Run

/-! ### The methods of scripts -/

namespace Methods

open Run

variable {s sep : String} {l : ListRef} {parts : List String} {u w : World}

/-- The pieces that the method gives for a separator that is neither empty nor a space. -/
def pieces (sep s : String) : List String :=
  (dropEmptyEnd (Text.split sep.toList s.toList)).map String.ofList

theorem split_done (hsep : sep ≠ "") (hspace : sep ≠ " ") (s : String) (stamp : Nat) (w : World) :
    ∃ l h, textMethod .split s [.text stamp sep] w = .done (.list l) { w with heap := h } ∧
      h.Lists l (pieces sep s) := by
  obtain ⟨l, h, hnew, hl⟩ := newTexts_done (pieces sep s) w
  refine ⟨l, h, ?_, hl⟩
  have hempty : sep.toList.isEmpty = false := by
    rw [List.isEmpty_eq_false_iff]
    exact mt String.toList_eq_nil_iff.mp hsep
  have hone : sep.toList ≠ [' '] := fun h => hspace (String.toList_inj.mp h)
  have hpieces : splitText sep.toList s.toList = dropEmptyEnd (Text.split sep.toList s.toList) := by
    rw [splitText, if_neg hone, hempty]
    rfl
  have hsplits : textMethod .split s [.text stamp sep] w = newTexts
      ((splitText (w.heap.display (.text stamp sep)).toList s.toList).map String.ofList) w := rfl
  rw [hsplits, w.heap.display_text, hpieces]
  exact hnew

theorem join_done (self : Machine) (scope : ScopeRef) (sep : String) (stamp : Nat)
    (hl : u.heap.Lists l parts) : ∃ stamp' u', listMethod self .join l [.text stamp sep] scope u =
      .done (.text stamp' (Text.joinStrings sep parts)) u' := by
  refine ⟨u.heap.newStamp.1, { u with heap := u.heap.newStamp.2 }, ?_⟩
  show newText (Text.joinStrings (u.heap.display (.text stamp sep))
    ((u.heap.items l).toList.map u.heap.display)) u = _
  rw [u.heap.display_text, u.heap.map_display hl]
  rfl

/-- Splitting by a separator that is neither empty nor a space gives at least one part, no part
contains the separator, and the last of several is not empty. Joined with the separator, the parts
give back the text without some of the separators at its end. -/
theorem split_joins_back (self : Machine) (scope : ScopeRef) (s sep : String) (stamp : Nat)
    (w : World) (hsep : sep ≠ "") (hspace : sep ≠ " ") :
    ∃ l w' parts, textMethod .split s [.text stamp sep] w = .done (.list l) w' ∧
      w'.heap.Lists l parts ∧ parts ≠ [] ∧ (∀ part ∈ parts, ¬ sep.toList <:+: part.toList) ∧
      (parts.getLast? = some "" → parts.length = 1) ∧
      ∃ joined k, s.toList = joined.toList ++ (List.replicate k sep.toList).flatten ∧
        ∀ u : World, u.heap.Lists l parts → ∃ stamp' u',
          listMethod self .join l [.text stamp sep] scope u = .done (.text stamp' joined) u' := by
  obtain ⟨l, h, hsplit, hl⟩ := split_done hsep hspace s stamp w
  have hseparator : sep.toList ≠ [] := mt String.toList_eq_nil_iff.mp hsep
  have hcut := Text.split_ne_nil sep.toList s.toList
  obtain ⟨k, hdropped⟩ := dropEmptyEnd_append_replicate (Text.split sep.toList s.toList)
  have hkept := dropEmptyEnd_ne_nil hcut
  refine ⟨l, _, pieces sep s, hsplit, hl, mt List.map_eq_nil_iff.mp hkept, ?_, ?_,
    Text.joinStrings sep (pieces sep s), k, ?_, fun u hu => join_done self scope sep stamp hu⟩
  · intro part hpart
    obtain ⟨piece, hpiece, rfl⟩ := List.mem_map.mp hpart
    rw [String.toList_ofList]
    refine Text.not_infix_of_mem_split hseparator s.toList piece ?_
    rw [hdropped]
    exact List.mem_append_left _ hpiece
  · intro hlast
    rw [pieces, List.getLast?_map, Option.map_eq_some_iff] at hlast
    obtain ⟨piece, hpiece, hempty⟩ := hlast
    rw [pieces, List.length_map]
    refine length_dropEmptyEnd ?_
    rw [hpiece, ← String.toList_ofList (l := piece), hempty]
    rfl
  · rw [Text.joinStrings, String.toList_ofList, pieces, List.map_map]
    have hsame : String.toList ∘ String.ofList = id := funext fun _ => String.toList_ofList
    rw [hsame, List.map_id, ← Text.join_append_replicate hkept, ← hdropped,
      Text.join_split hseparator]

example : pieces "aa" "aaabaaaa" = ["", "ab"] := by decide

/-- The separator overlaps itself, and two of its occurrences end the text. -/
theorem split_joins_back_twice : ∃ l w' parts,
    textMethod .split "aaabaaaa" [.text 0 "aa"] (.bare {}) = .done (.list l) w' ∧
      w'.heap.Lists l parts ∧ parts ≠ [] ∧ (∀ part ∈ parts, ¬ "aa".toList <:+: part.toList) ∧
      ∃ joined k, "aaabaaaa".toList = joined.toList ++ (List.replicate k "aa".toList).flatten ∧
        ∃ stamp' u', listMethod Evaluation.idle .join l [.text 0 "aa"] ⟨0⟩ w' =
          .done (.text stamp' joined) u' := by
  obtain ⟨l, w', parts, hsplit, hparts, hne, hfree, -, joined, k, hjoined, hjoin⟩ :=
    split_joins_back Evaluation.idle ⟨0⟩ "aaabaaaa" "aa" 0 (.bare {}) (by decide) (by decide)
  exact ⟨l, w', parts, hsplit, hparts, hne, hfree, joined, k, hjoined, hjoin w' hparts⟩

end Methods

end ScriptEngine
