/-!
A queue of bytes, first in first out. The back half is kept in reverse, so that adding a byte takes
one step; `toList` is the queue as its reader sees it.
-/

set_option autoImplicit false

namespace RiscvBoard

structure Fifo where
  front : List UInt8
  back : List UInt8

namespace Fifo

def empty : Fifo :=
  ⟨[], []⟩

def toList (q : Fifo) : List UInt8 :=
  q.front ++ q.back.reverse

def isEmpty (q : Fifo) : Bool :=
  q.front.isEmpty && q.back.isEmpty

def push (q : Fifo) (b : UInt8) : Fifo :=
  { q with back := b :: q.back }

def head? (q : Fifo) : Option UInt8 :=
  match q.front with
  | b :: _ => some b
  | [] => q.back.getLast?

def tail (q : Fifo) : Fifo :=
  match q.front with
  | _ :: rest => { q with front := rest }
  | [] => ⟨q.back.reverse.tail, []⟩

@[simp] theorem toList_empty : empty.toList = [] := rfl

@[simp] theorem toList_push (q : Fifo) (b : UInt8) : (q.push b).toList = q.toList ++ [b] := by
  simp [toList, push]

@[simp] theorem head?_eq (q : Fifo) : q.head? = q.toList.head? := by
  rcases q with ⟨front, back⟩
  cases front <;> simp [head?, toList]

@[simp] theorem toList_tail (q : Fifo) : q.tail.toList = q.toList.tail := by
  rcases q with ⟨front, back⟩
  cases front <;> simp [tail, toList]

@[simp] theorem isEmpty_eq (q : Fifo) : q.isEmpty = q.toList.isEmpty := by
  rcases q with ⟨front, back⟩
  cases front <;> cases back <;> simp [isEmpty, toList]

end Fifo

end RiscvBoard
