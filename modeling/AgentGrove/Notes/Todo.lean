import AgentGrove.Model.NotesTodo
import Mathlib.Algebra.GroupWithZero.Nat

namespace AgentGrove.NotesTodo

open Dom

def isPlain (tag : Text) (attrs : Attrs) : Bool := isListTag tag && !isTaskList attrs

/-- The items of a task list that a list's children make, with their contents as they are. -/
def itemsOf : Html → Html
  | nil => nil
  | text _ next => itemsOf next
  | element _ tag _ children next =>
    if tag = "li".toList then element () "li".toList taskItemAttrs children (itemsOf next) else itemsOf next

/-- What the loop comes to: the plain lists are converted that are in no plain list. -/
def convert : Html → Html
  | nil => nil
  | text content next => text content (convert next)
  | element _ tag attrs children next =>
    if isPlain tag attrs then element () "ul".toList taskListAttrs (itemsOf children) (convert next)
    else element () tag attrs (convert children) (convert next)

section Loop

variable {d : Live} {h : Html} {i n : Nat} {is : List Nat}

def refs : Live → List Nat
  | nil => []
  | text _ next => refs next
  | element ref _ _ children next => ref.toList ++ (refs children ++ refs next)

def visit (is : List Nat) (d : Live) : Live := is.foldl (fun root list => convertListElement list root) d

@[simp] theorem visit_nil (d : Live) : visit [] d = d := rfl

@[simp] theorem visit_cons (i : Nat) (is : List Nat) (d : Live) :
    visit (i :: is) d = visit is (convertListElement i d) := rfl

theorem visit_append (is js : List Nat) (d : Live) : visit (is ++ js) d = visit js (visit is d) := List.foldl_append

@[simp] theorem markup_parse (h : Html) : (parse h).markup = h := by
  induction h with
  | nil => rfl
  | text content next ih => rw [parse, markup, ih]
  | element ref tag attrs children next ihc ihn => rw [parse, markup, ihc, ihn]

@[simp] theorem refs_parse (h : Html) : refs (parse h) = [] := by
  induction h with
  | nil => rfl
  | text content next ih => exact ih
  | element ref tag attrs children next ihc ihn => rw [parse, refs, ihc, ihn]; rfl

@[simp] theorem refs_makeItems (d : Live) : refs (makeItems d) = [] := by
  induction d with
  | nil => rfl
  | text content next ih => exact ih
  | element ref tag attrs children next ihc ihn =>
    rw [makeItems]
    split
    · rw [refs, refs_parse, ihn]
      rfl
    · exact ihn

theorem markup_makeItems (d : Live) : (makeItems d).markup = itemsOf d.markup := by
  induction d with
  | nil => rfl
  | text content next ih => exact ih
  | element ref tag attrs children next ihc ihn =>
    rw [makeItems, markup, itemsOf]
    split
    · rw [markup, markup_parse, ihn]
    · exact ihn

/-- A list that is not in the tree is not replaced there. -/
theorem convert_absent (hi : i ∉ refs d) : convertListElement i d = d := by
  induction d with
  | nil => rfl
  | text content next ih => rw [convertListElement, ih hi]
  | element ref tag attrs children next ihc ihn =>
    simp only [refs, List.mem_append, Option.mem_toList, not_or] at hi
    rw [convertListElement, if_neg hi.1, ihc hi.2.1, ihn hi.2.2]

theorem refs_convert (i : Nat) (d : Live) : refs (convertListElement i d) ⊆ refs d := by
  induction d with
  | nil => exact List.Subset.refl _
  | text content next ih => exact ih
  | element ref tag attrs children next ihc ihn =>
    rw [convertListElement]
    split
    · split
      · exact List.Subset.refl _
      · intro j hj
        simp only [refs, refs_makeItems, Option.toList_none, List.nil_append, List.mem_append] at hj ⊢
        exact .inr (.inr hj)
    · intro j hj
      simp only [refs, List.mem_append] at hj ⊢
      exact hj.imp id (Or.imp (fun h => ihc h) (fun h => ihn h))

theorem visit_absent (h : ∀ i ∈ is, i ∉ refs d) : visit is d = d := by
  induction is with
  | nil => rfl
  | cons i is ih =>
    rw [visit_cons, convert_absent (h i List.mem_cons_self)]
    exact ih (fun j hj => h j (List.mem_cons_of_mem _ hj))

theorem refs_visit (is : List Nat) (d : Live) : refs (visit is d) ⊆ refs d := by
  induction is generalizing d with
  | nil => exact List.Subset.refl _
  | cons i is ih => exact List.Subset.trans (ih _) (refs_convert i d)

theorem visit_text (is : List Nat) (content : Text) (next : Live) :
    visit is (text content next) = text content (visit is next) := by
  induction is generalizing next with
  | nil => rfl
  | cons i is ih => exact ih _

theorem visit_element {ref : Option Nat} (h : ∀ i ∈ is, ref ≠ some i) (tag : Text) (attrs : Attrs) (children next : Live) :
    visit is (element ref tag attrs children next) = element ref tag attrs (visit is children) (visit is next) := by
  induction is generalizing children next with
  | nil => rfl
  | cons i is ih =>
    rw [visit_cons, convertListElement, if_neg (h i List.mem_cons_self),
      ih (fun j hj => h j (List.mem_cons_of_mem _ hj))]
    rfl

theorem queryLists_refs (d : Live) : queryLists d ⊆ refs d := by
  induction d with
  | nil => exact List.Subset.refl _
  | text content next ih => exact ih
  | element ref tag attrs children next ihc ihn =>
    intro i hi
    simp only [queryLists, refs, List.mem_append] at hi ⊢
    rcases hi with hi | hi | hi
    · split at hi
      · exact .inl hi
      · cases hi
    · exact .inr (.inl (ihc hi))
    · exact .inr (.inr (ihn hi))

/-- The numbers are given out in a row. -/
theorem refs_number (n : Nat) (h : Html) :
    n ≤ (number n h).2 ∧ ∀ i ∈ refs (number n h).1, n ≤ i ∧ i < (number n h).2 := by
  induction h generalizing n with
  | nil => exact ⟨le_rfl, fun i hi => by cases hi⟩
  | text content next ih => exact ih n
  | element ref tag attrs children next ihc ihn =>
    obtain ⟨hc, hcs⟩ := ihc (n + 1)
    obtain ⟨hn, hns⟩ := ihn (number (n + 1) children).2
    simp only [number, refs, Option.toList_some, List.mem_append, List.mem_singleton]
    refine ⟨by omega, ?_⟩
    rintro i (rfl | hi | hi)
    · omega
    · have hi := hcs i hi
      omega
    · have hi := hns i hi
      omega

theorem markup_number (n : Nat) (h : Html) : (number n h).1.markup = h := by
  induction h generalizing n with
  | nil => rfl
  | text content next ih => simp only [number, markup, ih]
  | element ref tag attrs children next ihc ihn => simp only [number, markup, ihc, ihn]

theorem visit_lists (n : Nat) (h : Html) : (visit (queryLists (number n h).1) (number n h).1).markup = convert h := by
  induction h generalizing n with
  | nil => rfl
  | text content next ih =>
    simp only [number, queryLists, visit_text, markup, convert, ih]
  | element ref tag attrs children next ihc ihn =>
    obtain ⟨hnum, hcs⟩ := refs_number (n + 1) children
    obtain ⟨-, hns⟩ := refs_number (number (n + 1) children).2 next
    have hsource := markup_number (n + 1) children
    specialize ihc (n + 1)
    specialize ihn (number (n + 1) children).2
    simp only [number]
    generalize (number (n + 1) children).1 = a at *
    generalize (number (n + 1) children).2 = m at *
    generalize (number m next).1 = b at *
    have hchildren : visit (queryLists a ++ queryLists b) a = visit (queryLists a) a := by
      rw [visit_append]
      refine visit_absent (fun i hi hin => ?_)
      have hlow := hns i (queryLists_refs b hi)
      have hhigh := hcs i (refs_visit _ _ hin)
      omega
    have hnext : visit (queryLists a ++ queryLists b) b = visit (queryLists b) b := by
      rw [visit_append, visit_absent (d := b)]
      intro i hi hin
      have hhigh := hcs i (queryLists_refs a hi)
      have hlow := hns i hin
      omega
    have hself : ∀ i ∈ queryLists a ++ queryLists b, some n ≠ some i := by
      rintro i hi heq
      cases heq
      rcases List.mem_append.mp hi with hi | hi
      · have hlow := hcs n (queryLists_refs a hi)
        omega
      · have hlow := hns n (queryLists_refs b hi)
        omega
    have hkept : (visit (queryLists a ++ queryLists b) (element (some n) tag attrs a b)).markup =
        element () tag attrs (convert children) (convert next) := by
      rw [visit_element hself, hchildren, hnext, markup, ihc, ihn]
    rw [queryLists, convert]
    cases hlist : isListTag tag with
    | false =>
      rw [isPlain, hlist, if_neg Bool.false_ne_true, if_neg (by simp)]
      exact hkept
    | true =>
      rw [if_pos rfl, Option.toList_some, List.singleton_append, visit_cons, convertListElement, if_pos rfl]
      cases htask : isTaskList attrs with
      | true =>
        rw [if_pos rfl, isPlain, hlist, htask, if_neg (by simp)]
        exact hkept
      | false =>
        have hnone : ∀ i ∈ queryLists a ++ queryLists b, none ≠ some i := fun i _ h => by cases h
        have hplain : isPlain tag attrs = true := by rw [isPlain, hlist, htask]; rfl
        rw [if_neg Bool.false_ne_true, if_pos hplain, visit_element hnone, visit_absent (d := makeItems a) (by simp),
          hnext, markup, markup_makeItems, hsource, ihn]

/-- The loop over the snapshot converts what is in no plain list, and leaves what was copied. -/
theorem listsToTaskLists_eq (h : Html) : listsToTaskLists h = convert h := visit_lists 0 h

end Loop

def textContent : Html → Text
  | nil => []
  | text content next => content ++ textContent next
  | element _ _ _ children next => textContent children ++ textContent next

/-- A list with the attributes of its items. -/
structure ListHead where
  tag : Text
  attrs : Attrs
  items : List Attrs
deriving DecidableEq

def itemAttrs : Html → List Attrs
  | nil => []
  | text _ next => itemAttrs next
  | element _ tag attrs _ next => if tag = "li".toList then attrs :: itemAttrs next else itemAttrs next

/-- The lists at every depth, in document order. -/
def listsIn : Html → List ListHead
  | nil => []
  | text _ next => listsIn next
  | element _ tag attrs children next =>
    (if isListTag tag then [⟨tag, attrs, itemAttrs children⟩] else []) ++ (listsIn children ++ listsIn next)

/-- A task list as it is, and a plain list as a task list with unchecked items. -/
def asTaskList (l : ListHead) : ListHead :=
  if isPlain l.tag l.attrs then ⟨"ul".toList, taskListAttrs, l.items.map (fun _ => taskItemAttrs)⟩ else l

/-- The conversion keeps the notes. -/
structure KeepsNotes (h : Html) : Prop where
  idempotent : listsToTaskLists (listsToTaskLists h) = listsToTaskLists h
  text : textContent (listsToTaskLists h) = textContent h
  lists : listsIn (listsToTaskLists h) = (listsIn h).map asTaskList

def NoPlain (h : Html) : Prop := ∀ l ∈ listsIn h, isPlain l.tag l.attrs = false

/-- The children that are no items. -/
def others : Html → Html
  | nil => nil
  | text content next => text content (others next)
  | element ref tag attrs children next =>
    if tag = "li".toList then others next else element ref tag attrs children (others next)

/-- What the plain lists hold that are in no other plain list. -/
def outermost : Html → List Html
  | nil => []
  | text _ next => outermost next
  | element _ tag attrs children next =>
    (if isPlain tag attrs then [children] else outermost children) ++ outermost next

/-- A plain list's items have no plain list in them, and between them there is neither text nor a list. -/
structure Convertible (children : Html) : Prop where
  items : NoPlain (itemsOf children)
  text : textContent (others children) = []
  lists : listsIn (others children) = []

section Counting

variable (onText : Text → Nat) (onList : Nat)

/-- How much a tree has of something that texts and lists are made of. -/
def size : Html → Nat
  | nil => 0
  | text content next => onText content + size next
  | element _ tag _ children next => (if isListTag tag then onList else 0) + (size children + size next)

theorem isListTag_li : isListTag "li".toList = false := by decide

theorem size_items (cs : Html) : size onText onList cs =
    size onText onList (itemsOf cs) + size onText onList (others cs) := by
  induction cs with
  | nil => rfl
  | text content next ih =>
    simp only [size, itemsOf, others, ih]
    omega
  | element ref tag attrs children next ihc ihn =>
    by_cases htag : tag = "li".toList
    · rw [itemsOf, others, if_pos htag, if_pos htag, htag]
      simp only [size, isListTag_li, ihn]
      omega
    · simp only [size, itemsOf, others, if_neg htag, ihn]
      omega

/-- What the conversion loses is what stands between the items of the outermost plain lists. -/
theorem size_convert (h : Html) : size onText onList h =
    size onText onList (convert h) + ((outermost h).map (fun cs => size onText onList (others cs))).sum := by
  induction h with
  | nil => rfl
  | text content next ih =>
    simp only [size, convert, outermost]
    omega
  | element ref tag attrs children next ihc ihn =>
    cases hplain : isPlain tag attrs with
    | true =>
      have hlist : isListTag tag = true := (Bool.and_eq_true_iff.mp hplain).1
      have hul : isListTag "ul".toList = true := by decide
      have hitems := size_items onText onList children
      simp only [size, convert, outermost, hplain, if_true, hlist, hul, List.singleton_append, List.map_cons,
        List.sum_cons]
      omega
    | false =>
      simp only [size, convert, outermost, hplain, if_neg Bool.false_ne_true, List.map_append, List.sum_append]
      omega

theorem size_others (h : size onText onList (convert x) = size onText onList x) {cs : Html} (hcs : cs ∈ outermost x) :
    size onText onList (others cs) = 0 := by
  have hsize := size_convert onText onList x
  have hsum : ((outermost x).map (fun cs => size onText onList (others cs))).sum = 0 := by omega
  exact List.sum_eq_zero_iff_forall_eq_nat.mp hsum _ (List.mem_map_of_mem hcs)

end Counting

section Contents

variable {h cs : Html}

theorem length_textContent (h : Html) : (textContent h).length = size List.length 0 h := by
  induction h with
  | nil => rfl
  | text content next ih => simp [textContent, size, ih]
  | element ref tag attrs children next ihc ihn => simp [textContent, size, ihc, ihn]

theorem length_listsIn (h : Html) : (listsIn h).length = size (fun _ => 0) 1 h := by
  induction h with
  | nil => rfl
  | text content next ih => simp [listsIn, size, ih]
  | element ref tag attrs children next ihc ihn =>
    rw [listsIn, size, List.length_append, List.length_append, ihc, ihn]
    split <;> rfl

theorem noPlain_element {ref : Unit} {tag : Text} {attrs : Attrs} {children next : Html} :
    NoPlain (element ref tag attrs children next) ↔ isPlain tag attrs = false ∧ NoPlain children ∧ NoPlain next := by
  unfold NoPlain
  rw [listsIn, List.forall_mem_append, List.forall_mem_append]
  refine and_congr_left fun _ => ?_
  cases hlist : isListTag tag with
  | true => simp
  | false => simp [isPlain, hlist]

theorem isPlain_taskList : isPlain "ul".toList taskListAttrs = false := by decide

theorem convert_eq_self : convert h = h ↔ NoPlain h := by
  induction h with
  | nil => simp [convert, NoPlain, listsIn]
  | text content next ih =>
    rw [convert, Dom.text.injEq, ih]
    exact and_iff_right rfl
  | element ref tag attrs children next ihc ihn =>
    rw [noPlain_element, convert]
    cases hplain : isPlain tag attrs with
    | true =>
      rw [if_pos rfl]
      constructor
      · intro heq
        obtain ⟨-, rfl, rfl, -⟩ := Dom.element.inj heq
        rw [isPlain_taskList] at hplain
        cases hplain
      · rintro ⟨hfalse, -⟩
        cases hfalse
    | false =>
      rw [if_neg Bool.false_ne_true, Dom.element.injEq, ihc, ihn]
      simp

theorem isPlain_li (attrs : Attrs) : isPlain "li".toList attrs = false := rfl

/-- Plain lists are left in the items of plain lists only. -/
theorem noPlain_convert : NoPlain (convert h) ↔ ∀ cs ∈ outermost h, NoPlain (itemsOf cs) := by
  induction h with
  | nil => simp [convert, NoPlain, listsIn, outermost]
  | text content next ih => exact ih
  | element ref tag attrs children next ihc ihn =>
    rw [convert, outermost, List.forall_mem_append]
    cases hplain : isPlain tag attrs with
    | true =>
      rw [if_pos rfl, if_pos rfl, noPlain_element, ihn, List.forall_mem_singleton]
      exact and_iff_right isPlain_taskList
    | false =>
      rw [if_neg Bool.false_ne_true, if_neg Bool.false_ne_true, noPlain_element, ihc, ihn]
      exact and_iff_right hplain

theorem text_items (h : textContent (others cs) = []) : textContent (itemsOf cs) = textContent cs := by
  induction cs with
  | nil => rfl
  | text content next ih =>
    obtain ⟨hcontent, hnext⟩ := List.append_eq_nil_iff.mp h
    rw [itemsOf, textContent, hcontent, List.nil_append, ih hnext]
  | element ref tag attrs children next ihc ihn =>
    rw [others] at h
    rw [itemsOf]
    split at h
    · rename_i htag
      rw [if_pos htag, textContent, textContent, ihn h]
    · rename_i htag
      obtain ⟨hchildren, hnext⟩ := List.append_eq_nil_iff.mp h
      rw [if_neg htag, textContent, hchildren, List.nil_append, ihn hnext]

theorem text_convert (h' : ∀ cs ∈ outermost h, textContent (others cs) = []) :
    textContent (convert h) = textContent h := by
  induction h with
  | nil => rfl
  | text content next ih => rw [convert, textContent, textContent, ih h']
  | element ref tag attrs children next ihc ihn =>
    rw [outermost, List.forall_mem_append] at h'
    rw [convert]
    split
    · rename_i hplain
      rw [if_pos hplain, List.forall_mem_singleton] at h'
      rw [textContent, textContent, text_items h'.1, ihn h'.2]
    · rename_i hplain
      rw [if_neg hplain] at h'
      rw [textContent, textContent, ihc h'.1, ihn h'.2]

theorem itemAttrs_items (cs : Html) : itemAttrs (itemsOf cs) = (itemAttrs cs).map (fun _ => taskItemAttrs) := by
  induction cs with
  | nil => rfl
  | text content next ih => exact ih
  | element ref tag attrs children next ihc ihn =>
    rw [itemsOf, itemAttrs]
    split
    · rw [itemAttrs, if_pos rfl, List.map_cons, ihn]
    · exact ihn

theorem itemAttrs_convert (h : Html) : itemAttrs (convert h) = itemAttrs h := by
  induction h with
  | nil => rfl
  | text content next ih => exact ih
  | element ref tag attrs children next ihc ihn =>
    rw [convert, itemAttrs]
    split
    · rename_i hplain
      have htag : tag ≠ "li".toList := by
        rintro rfl
        rw [isPlain_li] at hplain
        cases hplain
      rw [itemAttrs, if_neg (by decide), if_neg htag, ihn]
    · rw [itemAttrs, ihn]

theorem lists_items (h : listsIn (others cs) = []) : listsIn (itemsOf cs) = listsIn cs := by
  induction cs with
  | nil => rfl
  | text content next ih => exact ih h
  | element ref tag attrs children next ihc ihn =>
    rw [others] at h
    rw [itemsOf]
    split at h
    · rename_i htag
      rw [if_pos htag, listsIn, listsIn, htag, ihn h]
      rfl
    · rename_i htag
      rw [listsIn, List.append_eq_nil_iff, List.append_eq_nil_iff] at h
      obtain ⟨hhead, hchildren, hnext⟩ := h
      rw [if_neg htag, listsIn, hhead, hchildren, List.nil_append, List.nil_append, ihn hnext]

theorem asTaskList_kept {l : List ListHead} (h : ∀ x ∈ l, isPlain x.tag x.attrs = false) : l.map asTaskList = l := by
  have hkept : ∀ x ∈ l, asTaskList x = id x := by
    intro x hx
    rw [asTaskList, h x hx, if_neg Bool.false_ne_true]
    rfl
  rw [List.map_congr_left hkept, List.map_id]

theorem lists_convert (h' : ∀ cs ∈ outermost h, Convertible cs) : listsIn (convert h) = (listsIn h).map asTaskList := by
  induction h with
  | nil => rfl
  | text content next ih => exact ih h'
  | element ref tag attrs children next ihc ihn =>
    rw [outermost, List.forall_mem_append] at h'
    rw [convert, listsIn, List.map_append, List.map_append]
    split
    · rename_i hplain
      rw [if_pos hplain, List.forall_mem_singleton] at h'
      obtain ⟨hconvertible, hnext⟩ := h'
      have hlist : isListTag tag = true := (Bool.and_eq_true_iff.mp hplain).1
      have hitems : listsIn (itemsOf children) = (listsIn children).map asTaskList := by
        rw [← lists_items hconvertible.lists, asTaskList_kept hconvertible.items]
      rw [listsIn, hitems, ihn hnext, itemAttrs_items, if_pos (by decide), if_pos hlist, List.map_singleton, asTaskList,
        if_pos hplain]
    · rename_i hplain
      rw [if_neg hplain] at h'
      rw [listsIn, ihc h'.1, ihn h'.2, itemAttrs_convert]
      split
      · rw [List.map_singleton, asTaskList, if_neg hplain]
      · rfl

end Contents

/-- The notes are kept just where no plain list has another in its items, and nothing but items has text or lists in
it. -/
theorem keeps_notes_iff (h : Html) : KeepsNotes h ↔ ∀ cs ∈ outermost h, Convertible cs := by
  constructor
  · rintro ⟨hidempotent, htext, hlists⟩
    simp only [listsToTaskLists_eq] at hidempotent htext hlists
    intro cs hcs
    have hitems := noPlain_convert.mp (convert_eq_self.mp hidempotent) cs hcs
    refine ⟨hitems, ?_, ?_⟩
    · have hsize := congrArg List.length htext
      rw [length_textContent, length_textContent] at hsize
      rw [← List.length_eq_zero_iff, length_textContent]
      exact size_others _ _ hsize hcs
    · have hsize := congrArg List.length hlists
      rw [List.length_map, length_listsIn, length_listsIn] at hsize
      rw [← List.length_eq_zero_iff, length_listsIn]
      exact size_others _ _ hsize hcs
  · intro hconvertible
    have hplain : NoPlain (convert h) := noPlain_convert.mpr (fun cs hcs => (hconvertible cs hcs).items)
    refine ⟨?_, ?_, ?_⟩
    · rw [listsToTaskLists_eq, listsToTaskLists_eq, convert_eq_self.mpr hplain]
    · rw [listsToTaskLists_eq, text_convert (fun cs hcs => (hconvertible cs hcs).text)]
    · rw [listsToTaskLists_eq, lists_convert hconvertible]

/-- A list in an item of a list. -/
def nested : Html :=
  .element () "ul".toList [] (.element () "li".toList [] (.text "a".toList
    (.element () "ul".toList [] (.element () "li".toList [] (.text "b".toList .nil) .nil) .nil)) .nil) .nil

/-- Text that stands between the items. -/
def between : Html :=
  .element () "ul".toList [] (.text "a".toList (.element () "li".toList [] (.text "b".toList .nil) .nil)) .nil

theorem nested_list_left : listsToTaskLists (listsToTaskLists nested) ≠ listsToTaskLists nested ∧
    ¬ NoPlain (listsToTaskLists nested) ∧ textContent (listsToTaskLists between) ≠ textContent between ∧
    ¬ KeepsNotes nested := by
  have hagain : listsToTaskLists (listsToTaskLists nested) ≠ listsToTaskLists nested := by decide
  refine ⟨hagain, ?_, by decide, fun hkeeps => hagain hkeeps.idempotent⟩
  intro hplain
  exact absurd (hplain ⟨"ul".toList, [], [[]]⟩ (by decide)) (by decide)

end AgentGrove.NotesTodo
