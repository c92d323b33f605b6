import Mathlib.Data.List.Basic

namespace Dinit.Framework

/-- What a text to be split into fields is made of: elements, blanks between the fields, and marks,
which keep a field that is otherwise empty -/
inductive Item (α : Type) where
  | blank
  | mark
  | elem (a : α)

namespace Item

variable {α : Type}

def isBlank : Item α → Bool
  | .blank => true
  | _ => false

def isMark : Item α → Bool
  | .mark => true
  | _ => false

def elem? : Item α → Option α
  | .elem a => some a
  | _ => none

def elems (items : List (Item α)) : List α := items.filterMap elem?

/-- The fields between the blanks. Those without an element and without a mark are left out. -/
def fields (items : List (Item α)) : List (List α) :=
  ((items.splitOnP isBlank).filter (!·.isEmpty)).map elems

@[simp] theorem elems_mark (items : List (Item α)) : elems (.mark::items)=elems items :=
  List.filterMap_cons_none rfl

@[simp] theorem elems_elem (a : α) (items : List (Item α)) :
    elems (.elem a::items)=a::elems items := List.filterMap_cons_some rfl

/-- What is in front of the first blank is the first field, if it is one. -/
theorem fields_blank {f : List (Item α)} (h : ∀ x∈f,x.isBlank=false) (items : List (Item α)) :
    fields (f++.blank::items)=(if f.isEmpty then [] else [elems f])++fields items := by
  unfold fields
  rw [List.splitOnP_append_cons_of_forall_mem h .blank rfl]
  cases f with
  | nil => simp
  | cons x f => simp

theorem fields_single {f : List (Item α)} (h : ∀ x∈f,x.isBlank=false) :
    fields f=if f.isEmpty then [] else [elems f] := by
  unfold fields
  rw [List.splitOnP_eq_singleton h]
  cases f with
  | nil => simp
  | cons x f => simp

end Item

/-- Fields that are put together item by item: those that are complete, the elements of the last one,
and whether there is a mark in it -/
structure Splitter (α : Type) where
  done : List (List α)
  cur : List α
  marked : Bool

namespace Splitter

variable {α : Type}

def start : Splitter α := ⟨[],[],false⟩

def isEmpty (s : Splitter α) : Bool := s.cur.isEmpty && !s.marked

def put (s : Splitter α) (as : List α) : Splitter α := {s with cur := s.cur++as}

def mark (s : Splitter α) : Splitter α := {s with marked := true}

/-- Blanks in front of a field are trimmed. -/
def cut (s : Splitter α) : Splitter α := if s.isEmpty then s else ⟨s.done++[s.cur],[],false⟩

def step (s : Splitter α) : Item α → Splitter α
  | .blank => s.cut
  | .mark => s.mark
  | .elem a => s.put [a]

def run (s : Splitter α) (items : List (Item α)) : Splitter α := items.foldl step s

def finish (s : Splitter α) : List (List α) := if s.isEmpty then s.done else s.done++[s.cur]

/-- The state with the items `f` of the field that is not complete -/
def pending (done : List (List α)) (f : List (Item α)) : Splitter α :=
  ⟨done,Item.elems f,f.any Item.isMark⟩

theorem run_append (s : Splitter α) (items more : List (Item α)) :
    s.run (items++more)=(s.run items).run more := List.foldl_append

theorem run_elems (s : Splitter α) (as : List α) : s.run (as.map .elem)=s.put as := by
  induction as generalizing s with
  | nil => simp [run,put]
  | cons a as ih =>
    have h := ih (s.put [a])
    simpa [run,step,put] using h

theorem cut_empty {s : Splitter α} (h : s.isEmpty=true) : s.cut=s := if_pos h

theorem cut_full {s : Splitter α} (h : s.isEmpty=false) : s.cut=⟨s.done++[s.cur],[],false⟩ :=
  if_neg (by simp [h])

theorem cut_isEmpty (s : Splitter α) : s.cut.isEmpty=true := by
  cases h : s.isEmpty with
  | true => rwa [cut_empty h]
  | false => rw [cut_full h]; rfl

theorem pending_isEmpty (done : List (List α)) {f : List (Item α)} (h : ∀ x∈f,x.isBlank=false) :
    (pending done f).isEmpty=f.isEmpty := by
  cases f with
  | nil => rfl
  | cons x f =>
    cases x with
    | blank => exact absurd (h _ List.mem_cons_self) (by simp [Item.isBlank])
    | mark => simp [pending,isEmpty,Item.isMark]
    | elem a => simp [pending,isEmpty,Item.elems,Item.elem?]

theorem pending_step (done : List (List α)) (f : List (Item α)) {x : Item α}
    (h : x.isBlank=false) : (pending done f).step x=pending done (f++[x]) := by
  cases x with
  | blank => cases h
  | mark => simp [pending,step,mark,Item.elems,Item.elem?,Item.isMark]
  | elem a => simp [pending,step,put,Item.elems,Item.elem?,Item.isMark]

theorem finish_pending (done : List (List α)) {f : List (Item α)} (h : ∀ x∈f,x.isBlank=false)
    (items : List (Item α)) :
    ((pending done f).run items).finish=done++Item.fields (f++items) := by
  induction items generalizing done f with
  | nil =>
    rw [List.append_nil,Item.fields_single h]
    have he := pending_isEmpty done h
    show (if (pending done f).isEmpty=true then done else done++[Item.elems f])=_
    rw [he]
    split <;> simp
  | cons x items ih =>
    have he := pending_isEmpty done h
    cases hx : x.isBlank with
    | true =>
      obtain rfl : x=.blank := by cases x <;> simp_all [Item.isBlank]
      rw [Item.fields_blank h]
      by_cases hf : f.isEmpty=true
      · have hnil : f=[] := List.isEmpty_iff.mp hf
        have hs : (pending done f).step .blank=pending done [] := by
          rw [← hnil]
          exact cut_empty (he.trans hf)
        rw [if_pos hf]
        exact (congrArg (fun s => (run s items).finish) hs).trans (ih done (by simp))
      · have hs : (pending done f).step .blank=pending (done++[Item.elems f]) [] :=
          cut_full (he.trans (by simpa using hf))
        rw [if_neg hf,← List.append_assoc]
        exact (congrArg (fun s => (run s items).finish) hs).trans (ih _ (by simp))
    | false =>
      have hs := pending_step done f hx
      have hi := ih done (f := f++[x]) (by
        intro y hy
        obtain hy | hy := List.mem_append.mp hy
        · exact h y hy
        · rw [List.mem_singleton.mp hy,hx])
      rw [List.append_assoc] at hi
      exact (congrArg (fun s => (run s items).finish) hs).trans hi

/-- Splitting item by item gives the fields. -/
theorem finish_run (items : List (Item α)) : (start.run items).finish=Item.fields items :=
  finish_pending [] (f := []) (by simp) items

/-- Without blanks there is one field. -/
theorem run_single (s : Splitter α) {items : List (Item α)} (h : ∀ x∈items,x.isBlank=false) :
    s.run items=⟨s.done,s.cur++Item.elems items,s.marked || items.any Item.isMark⟩ := by
  induction items generalizing s with
  | nil => simp [run,Item.elems]
  | cons x items ih =>
    have hi := ih (s.step x) fun y hy => h y (List.mem_cons_of_mem x hy)
    have hx := h x List.mem_cons_self
    show (s.step x).run items=_
    rw [hi]
    cases x with
    | blank => cases hx
    | mark => simp [step,mark,Item.isMark]
    | elem a => simp [step,put,Item.isMark]

end Splitter

end Dinit.Framework
