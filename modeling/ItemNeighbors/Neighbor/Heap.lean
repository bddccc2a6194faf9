import ItemNeighbors.Neighbor

/-!
# Heaps of neighbors

A row under construction is a binary heap in an array, with the lowest score at the root. Ties
between scores are decided by the positions in the heap, so the steps below are fixed: an element
rises only past a strictly better parent, and of two children with equal scores the right one is
followed.

- `NeighborHeap.push`: adds an element at the end and lets it rise.
- `NeighborHeap.replaceRoot`: puts an element in the place of the root and lets it sink.
- `NeighborHeap.drain`: the elements from the highest to the lowest score.
- `NeighborHeap.offer`: adds an element to a heap of bounded size.
-/

namespace ItemNeighbors

namespace NeighborHeap

/-- Lets the element at position `i` rise while its parent outranks it. -/
def siftUp (heap : Array Neighbor) (i : Nat) (hi : i < heap.size) : Array Neighbor :=
  if h : i = 0 then heap
  else
    let parent := (i - 1) / 2
    have hparent : parent < i := by omega
    if heap[parent].outranks heap[i] then
      siftUp (heap.swap i parent) parent (by rw [Array.size_swap]; omega)
    else heap
termination_by i

/-- Adds an element. -/
def push (heap : Array Neighbor) (x : Neighbor) : Array Neighbor :=
  siftUp (heap.push x) heap.size (by simp)

/-- The child of `i` with the lower score, and the right one if the scores are equal, among the
positions below `stop`. -/
def weakerChild (heap : Array Neighbor) (stop i : Nat) (hstop : stop ≤ heap.size)
    (_hi : 2 * i + 1 < stop) : Nat :=
  if h : 2 * i + 2 < stop then
    if heap[2 * i + 2].outranks heap[2 * i + 1] then 2 * i + 1 else 2 * i + 2
  else 2 * i + 1

theorem weakerChild_bounds {heap : Array Neighbor} {stop i : Nat} {hstop : stop ≤ heap.size}
    {hi : 2 * i + 1 < stop} :
    i < weakerChild heap stop i hstop hi ∧ weakerChild heap stop i hstop hi < stop := by
  unfold weakerChild
  split
  · split <;> omega
  · omega

/-- Lets the element at position `i` sink among the positions below `stop`, as long as it outranks
its weaker child. -/
def siftDown (heap : Array Neighbor) (stop i : Nat) (hstop : stop ≤ heap.size) :
    Array Neighbor :=
  if h : 2 * i + 1 < stop then
    let child := weakerChild heap stop i hstop h
    have hchild : i < child ∧ child < stop := weakerChild_bounds
    if heap[i].outranks heap[child] then
      siftDown (heap.swap i child) stop child (by rw [Array.size_swap]; omega)
    else heap
  else heap
termination_by stop - i

@[simp] theorem size_siftUp {heap : Array Neighbor} {i : Nat} {hi : i < heap.size} :
    (siftUp heap i hi).size = heap.size := by
  fun_induction siftUp heap i hi with
  | case1 => rfl
  | case2 heap i hi h parent hparent hout ih => rw [ih, Array.size_swap]
  | case3 => rfl

@[simp] theorem size_siftDown {heap : Array Neighbor} {stop i : Nat}
    {hstop : stop ≤ heap.size} : (siftDown heap stop i hstop).size = heap.size := by
  fun_induction siftDown heap stop i hstop with
  | case1 heap i hstop h child hchild hout ih => rw [ih, Array.size_swap]
  | case2 => rfl
  | case3 => rfl

/-- Puts an element in the place of the root. -/
def replaceRoot (heap : Array Neighbor) (x : Neighbor) (h : 0 < heap.size) : Array Neighbor :=
  siftDown (heap.set 0 x) heap.size 0 (by simp)

/-- Moves the root behind the positions below `stop`, one position after the other, so that the
array ends up with the highest score first. -/
def drainFrom (heap : Array Neighbor) (stop : Nat) (hstop : stop ≤ heap.size) : Array Neighbor :=
  match stop with
  | 0 => heap
  | 1 => heap
  | n + 2 =>
    drainFrom (siftDown (heap.swap 0 (n + 1)) (n + 1) 0 (by rw [Array.size_swap]; omega)) (n + 1)
      (by rw [size_siftDown, Array.size_swap]; omega)

/-- The elements of a heap from the highest to the lowest score. -/
def drain (heap : Array Neighbor) : Array Neighbor :=
  drainFrom heap heap.size (Nat.le_refl _)

/-- Offers an element to a heap that holds at most `bound` elements. A full heap takes it in only
if it outranks the root, which then goes. -/
def offer (bound : Nat) (heap : Array Neighbor) (x : Neighbor) : Array Neighbor :=
  if heap.size < bound then push heap x
  else if h : 0 < heap.size then
    if x.outranks heap[0] then replaceRoot heap x h else heap
  else heap

end NeighborHeap

end ItemNeighbors
