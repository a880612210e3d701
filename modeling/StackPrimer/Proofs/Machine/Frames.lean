import StackPrimer.Proofs.Machine.Effect

/-!
# Frames in memory

Memory is divided into frames: the current one reaches to the end of memory, and each frame before it
up to where the next one begins. Whatever the program, and whatever else is done with the machine, the
frames stay in this order. So leaving a frame takes away what has been added to memory since it was
opened, and if nothing in front of it has been stored to, all is as it was.

Results:
* `framed_of_commands`: the order of the frames and the limit of memory.
* `leave_restores`: opening and leaving a frame are brackets.
-/

namespace StackPrimer.Machine

/-- Memory and the frames that it is divided into. -/
structure Space where
  memory : Array Float
  /-- The address of the first cell of the current frame. -/
  frame : Nat
  /-- The addresses of the first cells of the frames before, the last one in front. -/
  calls : List Nat

/-- The memory of a machine with its frames. -/
def space (m : Machine) : Space := ⟨m.memory, m.frame, m.calls⟩

/-! ## The order of the frames -/

/-- The frames follow one another, and memory is within its limit. Addresses of frames are never
negative. -/
structure Space.Framed (s : Space) : Prop where
  /-- From the innermost frame outwards, frames begin at smaller addresses, or the same one. -/
  saved : s.calls.Pairwise (· ≥ ·)
  /-- No frame before begins behind the current one. -/
  below : ∀ frame ∈ s.calls, frame ≤ s.frame
  /-- The current frame begins in memory, or at its end. -/
  frame_le : s.frame ≤ s.memory.size
  size_le : s.memory.size ≤ memoryLimit

namespace Space.Framed

variable {s : Space}

/-- Memory may grow. -/
theorem grow (h : s.Framed) {memory : Array Float} (hle : s.memory.size ≤ memory.size)
    (hlimit : memory.size ≤ memoryLimit) : Framed { s with memory } :=
  ⟨h.saved, h.below, h.frame_le.trans hle, hlimit⟩

theorem write (h : s.Framed) {n : Nat} (hn : n < memoryLimit) (y : Float) :
    Framed { s with memory := written s.memory n y } := by
  have hsize := h.size_le
  refine h.grow ?_ ?_
  · rw [size_written]
    omega
  · rw [size_written]
    omega

/-- A frame opened at the end of memory is behind all others. -/
theorem enter (h : s.Framed) : Framed ⟨s.memory, s.memory.size, s.frame :: s.calls⟩ := by
  refine ⟨List.pairwise_cons.mpr ⟨h.below, h.saved⟩, ?_, le_rfl, h.size_le⟩
  intro frame hframe
  rcases List.mem_cons.mp hframe with rfl | hframe
  · exact h.frame_le
  · exact (h.below frame hframe).trans h.frame_le

/-- The frame that is current after another has been left begins in front of what has been cut off. -/
theorem leave (h : s.Framed) {frame : Nat} {calls : List Nat} (hcalls : s.calls = frame :: calls) :
    Framed ⟨s.memory.take s.frame, frame, calls⟩ := by
  have hsaved := h.saved
  have hbelow := h.below
  have hframe := h.frame_le
  have hsize := h.size_le
  rw [hcalls] at hsaved hbelow
  have hfirst := hbelow frame (List.mem_cons_self ..)
  obtain ⟨hrest, hsaved⟩ := List.pairwise_cons.mp hsaved
  refine ⟨hsaved, hrest, ?_, ?_⟩
  · simp
    omega
  · simp
    omega

end Space.Framed

section Order

variable {m m' : Machine}

theorem Performs.framed {op : Opcode} {x : Operand} {target : Option Int}
    (h : Performs m op x target m') (hm : m.space.Framed) : m'.space.Framed := by
  cases h with
  | allocate hlimit => exact hm.grow (by simp [space]) (by simpa [space] using hlimit)
  | store _ _ _ hlimit _ => exact hm.write hlimit _
  | enter => exact hm.enter
  | leave hcalls _ _ => exact hm.leave hcalls
  | _ => exact hm

theorem Leaves.framed {op : Opcode} (h : Leaves m op m') (hm : m.space.Framed) : m'.space.Framed := by
  cases h with
  | closed hcalls => exact hm.leave hcalls
  | closedPopped hcalls _ => exact hm.leave hcalls
  | _ => exact hm

/-- The machine that an action leaves behind, whether it succeeds or not. -/
def left {α : Type} : EStateM.Result Fault Machine α → Machine
  | .ok _ m => m
  | .error _ m => m

@[simp] theorem left_ok {α : Type} (a : α) (m : Machine) : left (.ok a m) = m := rfl

/-- A step keeps the frames in order, also one that fails. -/
theorem framed_step (hm : m.space.Framed) : (left (step m)).space.Framed := by
  cases h : step m with
  | ok _ m' =>
    obtain ⟨op, x, target, m₁, -, hperforms, rfl⟩ := step_eq_ok h
    exact hperforms.framed hm
  | error f m' =>
    rcases step_eq_error h with ⟨-, rfl⟩ | ⟨op, x, -, hleaves⟩
    · exact hm
    · exact hleaves.framed hm

theorem Reaches.framed (h : Reaches m m') (hm : m.space.Framed) : m'.space.Framed := by
  induction h with
  | refl => exact hm
  | tail _ hturn ih =>
    have hstep := framed_step ih
    rwa [hturn.2, left_ok] at hstep

/-- A run keeps the frames in order, however it ends. -/
theorem framed_runWithin (bound : Nat) (j : Journal) (hm : m.space.Framed) :
    (runWithin bound m j).2.1.space.Framed := by
  induction bound generalizing m j with
  | zero => exact hm
  | succ bound ih =>
    have hstep := framed_step hm
    rw [runWithin]
    split
    · dsimp only
      split
      · rename_i heq
        rw [heq] at hstep
        exact ih _ hstep
      · rename_i heq
        rw [heq] at hstep
        split <;> exact hstep
    · exact hm

theorem framed_run (bound : Nat) (j : Journal) (hm : m.space.Framed) :
    (run bound m j).2.1.space.Framed := by
  rw [run_eq]
  exact framed_runWithin bound _ hm

end Order

/-! ## Everything that can be done with a machine -/

/-- What can be done with a machine from outside: its program goes on by a step or is run from its
beginning, for at most `bound` instructions; or one of its parts is used by itself. -/
inductive Command
  | step
  | run (bound : Nat) (j : Journal)
  | push (x : Float)
  | pop
  | store (address : Int) (x : Float)
  | ensure (address : Int)
  | moveTo (address : Int)
  | print (line : String)
  | read

/-- The machine after a command, whether it succeeds or not. -/
def Command.after (m : Machine) : Command → Machine
  | step => left (Machine.step m)
  | run bound j => (Machine.run bound m j).2.1
  | push x => left (Machine.push x m)
  | pop => left (Machine.pop m)
  | store address x => left (Machine.store address x m)
  | ensure address => left (Machine.ensure address m)
  | moveTo address => { m with ip := address }
  | print line => left (Machine.print line m)
  | read => left (Machine.read m)

section Commands

variable {m : Machine}

theorem space_pop (m : Machine) : (left (pop m)).space = m.space := by
  unfold pop
  split <;> rfl

theorem space_read (m : Machine) : (left (read m)).space = m.space := by
  unfold read
  split
  · rfl
  · split <;> rfl

theorem framed_store (address : Int) (x : Float) (hm : m.space.Framed) :
    (left (store address x m)).space.Framed := by
  rcases store_cases address x m with ⟨n, -, hlimit, hstore⟩ | ⟨f, hstore⟩
  · rw [hstore]
    exact hm.write hlimit x
  · rw [hstore]
    exact hm

theorem framed_ensure (address : Int) (hm : m.space.Framed) :
    (left (ensure address m)).space.Framed := by
  have hsize : m.memory.size ≤ memoryLimit := hm.size_le
  unfold ensure
  split
  · exact hm
  · rw [left_ok]
    refine hm.grow ?_ ?_
    · simp [space]
    · simp
      omega

theorem framed_after (hm : m.space.Framed) (c : Command) : (c.after m).space.Framed := by
  cases c with
  | step => exact framed_step hm
  | run bound j => exact framed_run bound j hm
  | push x => exact hm
  | pop =>
    rw [Command.after, space_pop]
    exact hm
  | store address x => exact framed_store address x hm
  | ensure address => exact framed_ensure address hm
  | moveTo address => exact hm
  | print line => exact hm
  | read =>
    rw [Command.after, space_read]
    exact hm

end Commands

/-- Whatever the program, and whatever is done with a machine that begins with it, the frames follow one
another in memory, which is within its limit. -/
theorem framed_of_commands (p : Program) (input : String) (commands : List Command) :
    (commands.foldl Command.after (load p input)).space.Framed := by
  have hstart : (load p input).space.Framed := ⟨.nil, by simp [space, load], le_rfl, Nat.zero_le _⟩
  generalize load p input = m at hstart
  induction commands generalizing m with
  | nil => exact hstart
  | cons c commands ih => exact ih _ (framed_after hstart c)

/-! ## Opening and leaving a frame -/

/-- The address at which the operation that the machine comes to stores, if it is one that does. -/
def storesAt? (m : Machine) : Option Int := do
  let (op, x) ← m.operation?
  let scope ← op.stores?
  let address ← x.address.toOption
  return m.place scope address

/-- A step while the frame that has been opened at `start` is not left yet: it stores nothing in front
of that frame, and it does not bring the number of frames back to what it was at `start`. -/
structure StepsInside (start m m' : Machine) : Prop where
  step : m.step = .ok () m'
  spares : ∀ address, m.storesAt? = some address → start.memory.size ≤ address
  stays : m.ComesTo .leave → m'.calls.length ≠ start.calls.length

/-- What holds until the frame that has been opened at `start` is left: all frames behind it begin where
it begins, or behind, and memory in front of it is as it was. -/
structure Inside (start m : Machine) : Prop where
  frames : ∃ inner : List Nat,
    m.frame :: m.calls = inner ++ start.memory.size :: start.frame :: start.calls ∧
      ∀ frame ∈ inner, start.memory.size ≤ frame
  memory : m.memory.take start.memory.size = start.memory

section Brackets

variable {start m m' : Machine} {op : Opcode} {x : Operand} {target : Option Int}

theorem storesAt?_eq {scope : Scope} {address : Int} (hop : m.operation? = some (op, x))
    (hscope : op.stores? = some scope) (hx : x.address = .ok address) :
    m.storesAt? = some (m.place scope address) := by
  simp [storesAt?, hop, hscope, hx, Except.toOption]

theorem Inside.size_le (h : Inside start m) : start.memory.size ≤ m.memory.size := by
  have hsize := congrArg Array.size h.memory
  simp at hsize
  omega

/-- The current frame is that one or one behind it. -/
theorem Inside.frame_ge (h : Inside start m) : start.memory.size ≤ m.frame := by
  obtain ⟨inner, hframes, hinner⟩ := h.frames
  cases inner with
  | nil => exact (List.cons.inj hframes).1.ge
  | cons frame inner =>
    rw [(List.cons.inj hframes).1]
    exact hinner frame (List.mem_cons_self ..)

/-- A frame that is opened begins at the end of memory. -/
theorem Inside.enter (h : Inside start m) :
    ∃ inner : List Nat,
      m.memory.size :: m.frame :: m.calls =
        inner ++ start.memory.size :: start.frame :: start.calls ∧
        ∀ frame ∈ inner, start.memory.size ≤ frame := by
  obtain ⟨inner, hframes, hinner⟩ := h.frames
  refine ⟨m.memory.size :: inner, by rw [hframes, List.cons_append], ?_⟩
  intro frame hframe
  rcases List.mem_cons.mp hframe with rfl | hframe
  · exact h.size_le
  · exact hinner frame hframe

/-- Leaving a frame is leaving that one, which restores all, or one behind it. -/
theorem Inside.leave (h : Inside start m) {frame : Nat} {calls : List Nat}
    (hcalls : m.calls = frame :: calls) :
    (⟨m.memory.take m.frame, frame, calls⟩ : Space) = start.space ∨
      ∃ inner : List Nat,
        frame :: calls = inner ++ start.memory.size :: start.frame :: start.calls ∧
          ∀ frame ∈ inner, start.memory.size ≤ frame := by
  obtain ⟨inner, hframes, hinner⟩ := h.frames
  cases inner with
  | nil =>
    left
    obtain ⟨hframe, hrest⟩ := List.cons.inj hframes
    rw [hcalls] at hrest
    obtain ⟨rfl, rfl⟩ := List.cons.inj hrest
    rw [hframe, h.memory]
    rfl
  | cons first inner =>
    right
    obtain ⟨-, hrest⟩ := List.cons.inj hframes
    rw [← hcalls]
    exact ⟨inner, hrest, fun frame hframe => hinner frame (List.mem_cons_of_mem _ hframe)⟩

/-- Cutting memory off behind the frame does not reach it. -/
theorem Inside.take_leave (h : Inside start m) :
    (m.memory.take m.frame).take start.memory.size = start.memory := by
  have hframe := h.frame_ge
  have hmemory := h.memory
  simp at hmemory ⊢
  rw [Nat.min_eq_left hframe, hmemory]

/-- What an operation that stores nothing in front of the frame preserves, unless it leaves it. -/
theorem Inside.performs (h : Inside start m) (hperforms : Performs m op x target m')
    (hop : m.operation? = some (op, x))
    (hspares : ∀ address, m.storesAt? = some address → start.memory.size ≤ address) :
    Inside start m' ∨ op = .leave ∧ m'.space = start.space := by
  cases hperforms with
  | allocate _ =>
    left
    refine ⟨h.frames, ?_⟩
    rw [take_push h.size_le, h.memory]
  | store hscope hx hn _ _ =>
    left
    refine ⟨h.frames, ?_⟩
    have hplace := hspares _ (storesAt?_eq hop hscope hx)
    rw [hn, Int.ofNat_le] at hplace
    rw [take_written hplace h.size_le, h.memory]
  | enter => exact .inl ⟨h.enter, h.memory⟩
  | leave hcalls _ _ =>
    rcases h.leave hcalls with hrestored | hframes
    · exact .inr ⟨rfl, hrestored⟩
    · exact .inl ⟨hframes, h.take_leave⟩
  | _ => exact .inl ⟨h.frames, h.memory⟩

/-- The operation that opens the frame leads inside. -/
theorem inside_of_enter (henter : start.ComesTo .enter) (hopen : start.step = .ok () m) :
    Inside start m := by
  obtain ⟨op, x, target, m₁, hop, hperforms, rfl⟩ := step_eq_ok hopen
  obtain rfl : op = .enter := by simpa [ComesTo, hop] using henter
  cases hperforms with
  | enter => exact ⟨⟨[], rfl, by simp⟩, by simp⟩
  | constant hop _ => simp at hop
  | jump hop _ => simp at hop
  | load hop _ _ _ => cases hop
  | store hop _ _ _ _ => cases hop
  | binary hop _ => cases hop

/-- Inside, there are more frames than there were before. -/
theorem Inside.height (h : Inside start m) : start.calls.length < m.calls.length := by
  obtain ⟨inner, hframes, -⟩ := h.frames
  have hlength := congrArg List.length hframes
  simp at hlength
  omega

/-- What holds until the frame is left, as long as it is not left. -/
theorem Inside.steps (h : Inside start m) (hstep : StepsInside start m m') : Inside start m' := by
  obtain ⟨op, x, target, m₁, hop, hperforms, rfl⟩ := step_eq_ok hstep.step
  rcases h.performs hperforms hop hstep.spares with hinside | ⟨rfl, hrestored⟩
  · exact ⟨hinside.frames, hinside.memory⟩
  · have hcalls := congrArg Space.calls hrestored
    exact absurd (congrArg List.length hcalls) (hstep.stays (comesTo_of_operation? hop))

theorem Inside.reaches (h : Inside start m)
    (hsteps : Relation.ReflTransGen (StepsInside start) m m') : Inside start m' := by
  induction hsteps with
  | refl => exact h
  | tail _ hstep ih => exact ih.steps hstep

/-- The operation that leaves a frame leaves that one, which restores all, or one behind it; or it fails
before it leaves any. -/
theorem Inside.after_leave (h : Inside start m) (hleave : m.ComesTo .leave) :
    (left m.step).space = start.space ∨ Inside start (left m.step) := by
  cases hstep : m.step with
  | ok u m' =>
    obtain ⟨op, x, target, m₁, hop, hperforms, rfl⟩ := step_eq_ok hstep
    obtain rfl : op = .leave := by simpa [ComesTo, hop] using hleave
    have hspares : ∀ address, m.storesAt? = some address → start.memory.size ≤ address := by
      intro address hstores
      simp [storesAt?, hop, Opcode.stores?] at hstores
    rcases h.performs hperforms hop hspares with hinside | ⟨-, hrestored⟩
    · exact .inr ⟨hinside.frames, hinside.memory⟩
    · exact .inl hrestored
  | error f m' =>
    rcases step_eq_error hstep with ⟨-, rfl⟩ | ⟨op, x, -, hleaves⟩
    · exact .inr h
    · cases hleaves with
      | closed hcalls | closedPopped hcalls _ =>
        rcases h.leave hcalls with hrestored | hframes
        · exact .inl hrestored
        · exact .inr ⟨hframes, h.take_leave⟩
      | _ => exact .inr ⟨h.frames, h.memory⟩

/-- A frame that is left takes everything with it. After an operation that opens a frame, let steps follow
that store nothing in front of the frame, and then the first operation that leaves a frame and brings the
number of frames back to what it was: memory, the current frame and the frames before are as they were,
however many frames have been opened and left in between, and also if the last operation fails after it
has left the frame. -/
theorem leave_restores {start opened last closed : Machine} (henter : start.ComesTo .enter)
    (hopen : start.step = .ok () opened)
    (hinside : Relation.ReflTransGen (StepsInside start) opened last)
    (hleave : last.ComesTo .leave) (hclose : left last.step = closed)
    (hheight : closed.calls.length = start.calls.length) : closed.space = start.space := by
  have hlast : Inside start last := (inside_of_enter henter hopen).reaches hinside
  rw [← hclose] at hheight ⊢
  rcases hlast.after_leave hleave with hrestored | hinside
  · exact hrestored
  · exact absurd hheight hinside.height.ne'

end Brackets

/-- The machine after a step, unless that fails. -/
def stepped? (m : Machine) : Option Machine :=
  match m.step with
  | .ok _ m' => some m'
  | .error _ _ => none

theorem step_of_stepped? {m m' : Machine} (h : m.stepped? = some m') : m.step = .ok () m' := by
  unfold stepped? at h
  split at h
  · rename_i hstep
    cases h
    exact hstep
  · cases h

/-- The machine after so many steps, if all of them are steps while the frame opened at `start` is not
left yet. -/
def stepsInside? (start : Machine) : (steps : Nat) → Machine → Option Machine
  | 0, m => some m
  | steps + 1, m => do
    let m' ← m.stepped?
    if (∀ address ∈ m.storesAt?, start.memory.size ≤ address) ∧
        (m.ComesTo .leave → m'.calls.length ≠ start.calls.length) then
      stepsInside? start steps m'
    else none

theorem reaches_of_stepsInside? {start m m' : Machine} {steps : Nat}
    (h : stepsInside? start steps m = some m') :
    Relation.ReflTransGen (StepsInside start) m m' := by
  induction steps generalizing m with
  | zero =>
    cases h
    exact .refl
  | succ steps ih =>
    obtain ⟨m₁, hstep, h⟩ := Option.bind_eq_some_iff.mp h
    split at h
    · rename_i hinside
      exact .head ⟨step_of_stepped? hstep, hinside.1, hinside.2⟩ (ih h)
    · cases h

/-- A program that sets a global and opens a frame, in which it stores, and opens another one and leaves
it. -/
def bracketProgram : Program :=
  #[.of .allocate (some (.int 1)), .of .constant (some (.float 7)), .of .storeGlobal (some (.int 0)),
    .of .enter none, .of .constant (some (.float 1.5)), .of .storeLocal (some (.int 0)),
    .of .enter none, .of .constant (some (.float 2.5)), .of .storeLocal (some (.int 3)),
    .of .pushReturn (some (.int 11)), .of .leave none, .of .pushReturn (some (.int 13)),
    .of .leave none, .of .halt none]

/-- Two frames, one inside the other: where the outer one has been left, there is one cell again. -/
theorem leave_restores_nested :
    ∃ start opened last closed : Machine,
      start = [Command.step, .step, .step].foldl Command.after (load bracketProgram "") ∧
      start.memory.size = 1 ∧ start.ComesTo .enter ∧ start.step = .ok () opened ∧
      Relation.ReflTransGen (StepsInside start) opened last ∧ last.memory.size = 2 ∧
      last.ComesTo .leave ∧ left last.step = closed ∧
      closed.calls.length = start.calls.length ∧ closed.space = start.space := by
  let start := [Command.step, .step, .step].foldl Command.after (load bracketProgram "")
  have henter : start.ComesTo .enter := by decide +kernel
  have hrun : (do
      let opened ← start.stepped?
      let last ← stepsInside? start 8 opened
      let closed ← last.stepped?
      return (last.memory.size, last.operation?.map Prod.fst, closed.calls.length)) =
      some (2, some .leave, start.calls.length) := by
    decide +kernel
  simp only [Option.bind_eq_bind, Option.bind_eq_some_iff, Option.pure_def, Option.some.injEq,
    Prod.mk.injEq] at hrun
  obtain ⟨opened, hopened, last, hlast, closed, hclosed, hsize, hleave, hheight⟩ := hrun
  have hclose : left last.step = closed := by rw [step_of_stepped? hclosed, left_ok]
  exact ⟨start, opened, last, closed, rfl, by decide +kernel, henter, step_of_stepped? hopened,
    reaches_of_stepsInside? hlast, hsize, hleave, hclose, hheight,
    leave_restores henter (step_of_stepped? hopened) (reaches_of_stepsInside? hlast) hleave hclose
      hheight⟩

end StackPrimer.Machine
