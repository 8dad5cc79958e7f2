import DocScript.Eval

/-!
# The arena of frames

Frames lie in one array, and a frame is known by its index there. This module
describes what the operations on frames do to the frame at each index, and says
when frames are *well formed*: there is one, and every frame continues a frame
below it.

Frames can be put `above` others: the indices of their links move up, and the
frames below are neither seen nor touched.

**Results.**
* `Scopes.ext_frame`: frames are told apart by their number and by what lies at
  each index.
* `Scopes.chain_pushFrame_of_some`, `Scopes.chain_pushFrame_of_none`: what is visible
  from a frame that is opened.
* `Scopes.lookup?_above`, `Scopes.assign_above`, `Scopes.push_above` and their
  companions: well-formed frames behave the same wherever they lie.
* `Session.called_eq`: the frame of a call holds the parameters and nothing else.
* `Eval.invoke_cases`: what a call can do.
-/

namespace DocScript

/-- The same frame where all indices have moved up. -/
def Frame.shift (offset : Nat) (frame : Frame) : Frame :=
  { frame with parent := frame.parent.map (offset + ·) }

namespace Scopes

section Indices

variable (scopes : Scopes)

/-- Frames are the same if there are as many, and the same frame lies at each index. -/
theorem ext_frame
    {a b : Scopes}
    (hdepth : a.depth = b.depth)
    (hframe : ∀ index, a.frame index = b.frame index) :
    a = b := by
  obtain ⟨frames⟩ := a
  obtain ⟨frames'⟩ := b
  congr 1
  apply Array.ext hdepth
  intro index h h'
  have heq := hframe index
  simpa [frame, h, h'] using heq

theorem frame_of_depth_le
    {index : Nat} (h : scopes.depth ≤ index) : scopes.frame index = default := by
  unfold depth at h
  simp [frame, h]

/-- Opens a given frame. -/
def pushFrame (frame : Frame) : Scopes :=
  ⟨scopes.frames.push frame⟩

@[simp] theorem depth_pushFrame (frame : Frame) :
    (scopes.pushFrame frame).depth = scopes.depth + 1 := by
  simp [pushFrame, depth]

@[simp] theorem current_pushFrame (frame : Frame) :
    (scopes.pushFrame frame).current = scopes.depth := by
  simp [pushFrame, current, depth]

@[simp] theorem pop_pushFrame (frame : Frame) : (scopes.pushFrame frame).pop = scopes := by
  simp [pushFrame, pop]

/-- A frame is opened at the next index, and all others stay where they are. -/
theorem frame_pushFrame (frame : Frame) (index : Nat) :
    (scopes.pushFrame frame).frame index =
      if index = scopes.depth then frame else scopes.frame index := by
  by_cases h : index = scopes.depth
  · subst h
    simp [pushFrame, Scopes.frame, depth]
  · rw [if_neg h]
    unfold depth at h
    simp [pushFrame, Scopes.frame, Array.getElem?_push, h]

/-- The frame with the highest index is closed, and all others stay. -/
theorem frame_pop (index : Nat) :
    scopes.pop.frame index =
      if index + 1 < scopes.depth then scopes.frame index else default := by
  split
  · rename_i h
    unfold depth at h
    have hlt : index < scopes.frames.size - 1 := by
      omega
    have hlt' : index < scopes.frames.size := by
      omega
    simp [pop, frame, hlt, hlt']
  · rename_i h
    apply frame_of_depth_le
    rw [depth_pop]
    omega

/-- A binding is made in the frame at one index, if there is a frame there. -/
theorem frame_bindAt
    (index other : Nat) (name : String) (value : Value) :
    (scopes.bindAt index name value).frame other =
      if other = index ∧ index < scopes.depth then
        { scopes.frame index with
          bindings := (scopes.frame index).bindings.insert name value }
      else scopes.frame other := by
  split
  · rename_i h
    obtain ⟨rfl, hlt⟩ := h
    unfold depth at hlt
    simp [bindAt, frame, hlt]
  · rename_i h
    by_cases heq : other = index
    · subst heq
      have hle : scopes.depth ≤ other := by
        omega
      rw [frame_of_depth_le _ (by simpa using hle), frame_of_depth_le _ hle]
    · simp [bindAt, frame, Ne.symm heq]

/-- To bind a name leaves all links between frames as they are. -/
@[simp] theorem parent_bindAt
    (index other : Nat) (name : String) (value : Value) :
    ((scopes.bindAt index name value).frame other).parent = (scopes.frame other).parent := by
  rw [frame_bindAt]
  split
  · rename_i h
    rw [h.1]
  · rfl

@[simp] theorem current_assign (name : String) (value : Value) :
    (scopes.assign name value).current = scopes.current := by
  simp [assign, bindAt, current]

/-- Opens a frame for a call, with bindings in it. -/
def pushBound (bindings : List (String × Value)) : Scopes :=
  scopes.pushFrame ⟨Table.empty.insertAll bindings, none⟩

theorem push_eq_pushFrame : scopes.push = scopes.pushFrame ⟨.empty, some scopes.current⟩ := rfl

/-- To bind a name in the frame just opened is to open it with one more binding. -/
theorem declare_pushFrame (frame : Frame) (name : String) (value : Value) :
    (scopes.pushFrame frame).declare name value =
      scopes.pushFrame { frame with bindings := frame.bindings.insert name value } := by
  unfold declare
  rw [current_pushFrame]
  apply ext_frame
  · simp
  · intro index
    simp only [frame_bindAt, frame_pushFrame, depth_pushFrame, if_true]
    by_cases h : index = scopes.depth <;> simp [h]

theorem atRoot_eq_false (h : 1 < scopes.depth) : scopes.atRoot = false := by
  unfold depth at h
  simpa [atRoot] using h

end Indices

/-- There is a frame, and every frame continues none or one below it. -/
structure WellFormed (scopes : Scopes) : Prop where
  nonempty : 0 < scopes.depth
  parent_lt : ∀ index parent, (scopes.frame index).parent = some parent → parent < index

theorem wellFormed_root : root.WellFormed := by
  refine ⟨Nat.one_pos, fun index parent hlink => ?_⟩
  cases index with
  | zero =>
      cases hlink
  | succ index =>
      cases hlink

namespace WellFormed

variable {scopes : Scopes}

theorem current_lt (h : scopes.WellFormed) : scopes.current < scopes.depth := by
  have hpos := h.nonempty
  unfold current
  unfold depth at hpos ⊢
  omega

/-- A frame may be opened that continues none, or one that there is already. -/
theorem pushFrame
    (h : scopes.WellFormed) {frame : Frame}
    (hparent : ∀ parent, frame.parent = some parent → parent < scopes.depth) :
    (scopes.pushFrame frame).WellFormed := by
  refine ⟨by simp, fun index parent hlink => ?_⟩
  rw [frame_pushFrame] at hlink
  split at hlink
  · rename_i heq
    rw [heq]
    exact hparent parent hlink
  · exact h.parent_lt index parent hlink

theorem push (h : scopes.WellFormed) : scopes.push.WellFormed := by
  rw [push_eq_pushFrame]
  refine h.pushFrame fun parent hlink => ?_
  cases hlink
  exact h.current_lt

theorem pushBound (h : scopes.WellFormed) (bindings : List (String × Value)) :
    (scopes.pushBound bindings).WellFormed := by
  refine h.pushFrame fun parent hlink => ?_
  cases hlink

theorem pop (h : scopes.WellFormed) (hdepth : 1 < scopes.depth) : scopes.pop.WellFormed := by
  refine ⟨by rw [depth_pop]; omega, fun index parent hlink => ?_⟩
  rw [frame_pop] at hlink
  split at hlink
  · exact h.parent_lt index parent hlink
  · cases hlink

theorem bindAt
    (h : scopes.WellFormed) (index : Nat) (name : String) (value : Value) :
    (scopes.bindAt index name value).WellFormed := by
  refine ⟨by simpa using h.nonempty, fun other parent hlink => ?_⟩
  rw [parent_bindAt] at hlink
  exact h.parent_lt other parent hlink

end WellFormed

section Chains

variable {scopes : Scopes}

/-- The same links are followed in the same way, whatever bounds there are on the way down. -/
theorem chainFrom_congr
    {other : Scopes} (h : scopes.WellFormed) {bound bound' index : Nat}
    (hparent : ∀ i ≤ index, (other.frame i).parent = (scopes.frame i).parent)
    (hbound : index < bound) (hbound' : index < bound') :
    other.chainFrom bound' index = scopes.chainFrom bound index := by
  induction bound generalizing bound' index with
  | zero =>
      omega
  | succ bound ih =>
      obtain ⟨bound', rfl⟩ : ∃ n, bound' = n + 1 := ⟨bound' - 1, by omega⟩
      simp only [chainFrom, hparent index (Nat.le_refl index), List.cons.injEq, true_and]
      cases hlink : (scopes.frame index).parent with
      | none =>
          rfl
      | some parent =>
          have hlt := h.parent_lt index parent hlink
          exact ih (fun i hi => hparent i (by omega)) (by omega) (by omega)

/-- Links lead downwards, so no frame above the first one is reached. -/
theorem le_of_mem_chainFrom
    (h : scopes.WellFormed) {bound index i : Nat} (hmem : i ∈ scopes.chainFrom bound index) :
    i ≤ index := by
  induction bound generalizing index with
  | zero =>
      cases hmem
  | succ bound ih =>
      rw [chainFrom, List.mem_cons] at hmem
      rcases hmem with rfl | hrest
      · exact Nat.le_refl i
      · cases hlink : (scopes.frame index).parent with
        | none =>
            rw [hlink] at hrest
            cases hrest
        | some parent =>
            rw [hlink] at hrest
            have hlt := h.parent_lt index parent hlink
            have hle := ih hrest
            omega

theorem lt_of_mem_chain
    (h : scopes.WellFormed) {i : Nat} (hmem : i ∈ scopes.chain) : i < scopes.depth :=
  Nat.lt_of_le_of_lt (le_of_mem_chainFrom h hmem) h.current_lt

/-- A frame that continues none is all that is visible from it. -/
theorem chain_pushFrame_of_none
    (scopes : Scopes) {frame : Frame} (hparent : frame.parent = none) :
    (scopes.pushFrame frame).chain = [scopes.depth] := by
  simp only [chain, current_pushFrame, depth_pushFrame, chainFrom, frame_pushFrame, if_true,
    hparent]

/-- From a frame that continues the current one, all is visible that was so before. -/
theorem chain_pushFrame_of_some
    (h : scopes.WellFormed) {frame : Frame} (hparent : frame.parent = some scopes.current) :
    (scopes.pushFrame frame).chain = scopes.depth :: scopes.chain := by
  have hlt := h.current_lt
  have hbelow : ∀ i ≤ scopes.current,
      ((scopes.pushFrame frame).frame i).parent = (scopes.frame i).parent := by
    intro i hi
    rw [frame_pushFrame, if_neg (by omega)]
  have hrest := chainFrom_congr h hbelow hlt hlt
  simp only [chain, current_pushFrame, depth_pushFrame]
  rw [chainFrom, frame_pushFrame, if_pos rfl, hparent]
  simp only [hrest]

end Chains

section Above

variable (base : Array Frame) (scopes : Scopes)

/-- The same frames, on top of others. -/
def above : Scopes :=
  ⟨base ++ scopes.frames.map (Frame.shift base.size)⟩

@[simp] theorem depth_above : (scopes.above base).depth = base.size + scopes.depth := by
  simp [above, depth]

theorem frame_above (index : Nat) :
    (scopes.above base).frame (base.size + index) = (scopes.frame index).shift base.size := by
  by_cases h : index < scopes.frames.size
  · simp [above, frame, h]
  · simp [above, frame, h]
    rfl

theorem pushFrame_above (frame : Frame) :
    (scopes.above base).pushFrame (frame.shift base.size) =
      (scopes.pushFrame frame).above base := by
  simp [above, pushFrame]

variable {scopes}

theorem current_above (h : 0 < scopes.depth) :
    (scopes.above base).current = base.size + scopes.current := by
  unfold depth at h
  simp only [above, current, Array.size_append, Array.size_map]
  omega

/-- A frame that is opened continues the current one wherever that lies. -/
theorem push_above (h : 0 < scopes.depth) :
    (scopes.above base).push = scopes.push.above base := by
  rw [push_eq_pushFrame, push_eq_pushFrame, current_above base h, ← pushFrame_above]
  rfl

theorem pushBound_above (bindings : List (String × Value)) :
    (scopes.above base).pushBound bindings = (scopes.pushBound bindings).above base :=
  pushFrame_above base scopes ⟨Table.empty.insertAll bindings, none⟩

/-- A frame is closed in the same way wherever it lies. -/
theorem pop_above (h : 0 < scopes.depth) :
    (scopes.above base).pop = scopes.pop.above base := by
  have hne : scopes.frames.map (Frame.shift base.size) ≠ #[] := by
    intro hempty
    have hsize := congrArg Array.size hempty
    unfold depth at h
    simp at hsize
    simp [hsize] at h
  simp only [above, pop, Array.pop_append_of_ne_empty hne, Array.map_pop]

theorem bindAt_above (index : Nat) (name : String) (value : Value) :
    (scopes.above base).bindAt (base.size + index) name value =
      (scopes.bindAt index name value).above base := by
  unfold bindAt
  rw [frame_above]
  simp [above, Frame.shift]

/-- Links lead to the same frames wherever these lie. -/
theorem chainFrom_above
    (h : scopes.WellFormed) {bound bound' index : Nat}
    (hbound : index < bound) (hbound' : index < bound') :
    (scopes.above base).chainFrom bound' (base.size + index) =
      (scopes.chainFrom bound index).map (base.size + ·) := by
  -- Links lead downwards, so both bounds stay above the index that is reached.
  induction bound generalizing bound' index with
  | zero =>
      omega
  | succ bound ih =>
      obtain ⟨bound', rfl⟩ : ∃ n, bound' = n + 1 := ⟨bound' - 1, by omega⟩
      simp only [chainFrom, frame_above, Frame.shift, List.map_cons, List.cons.injEq, true_and]
      cases hparent : (scopes.frame index).parent with
      | none =>
          rfl
      | some parent =>
          have hlt := h.parent_lt index parent hparent
          exact ih (by omega) (by omega)

theorem chain_above (h : scopes.WellFormed) :
    (scopes.above base).chain = scopes.chain.map (base.size + ·) := by
  have hlt := h.current_lt
  unfold chain
  rw [current_above base h.nonempty, depth_above]
  exact chainFrom_above base h hlt (by omega)

/-- A name is found in the same frame wherever that lies. -/
theorem owner?_above (h : scopes.WellFormed) (name : String) :
    (scopes.above base).owner? name = (scopes.owner? name).map (base.size + ·) := by
  unfold owner?
  rw [chain_above base h, List.find?_map]
  congr 2
  funext index
  simp only [Function.comp_apply, frame_above]
  rfl

/-- A local variable has the same value wherever its frames lie. -/
theorem lookup?_above (h : scopes.WellFormed) (name : String) :
    (scopes.above base).lookup? name = scopes.lookup? name := by
  unfold lookup?
  rw [owner?_above base h]
  cases scopes.owner? name with
  | none =>
      rfl
  | some index =>
      simp only [Option.map_some, Option.bind_some, frame_above]
      rfl

/-- A local variable is set in the same frame wherever that lies. -/
theorem assign_above (h : scopes.WellFormed) (name : String) (value : Value) :
    (scopes.above base).assign name value = (scopes.assign name value).above base := by
  unfold assign
  rw [owner?_above base h, current_above base h.nonempty, Option.getD_map, bindAt_above]

end Above

end Scopes

section Sessions

variable {H : Type}

/-- The session after its current frame is closed. -/
def Session.closeScope (s : Session H) : Session H :=
  { s with scopes := s.scopes.pop }

/-- The session in which the body of a called function is evaluated. -/
def Session.called (s : Session H) (bindings : List (String × Value)) : Session H :=
  Eval.declareAll { s with callDepth := s.callDepth + 1 }.enterCallScope bindings

/-- Evaluates the body of a called function, and leaves the call. -/
def Eval.callBody
    (ev : Eval.Evaluator H) (body : Node) (bindings : List (String × Value)) (s : Session H) :
    Run H :=
  match ev body (s.called bindings) with
  | none => none
  | some (outcome, s) => Eval.closeFrame outcome.settle s.exitCall

/-- Parameters are bound one after the other in the frame of their call. -/
theorem Eval.declareAll_pushFrame
    (s : Session H) (scopes : Scopes) (frame : Frame) (bindings : List (String × Value)) :
    Eval.declareAll { s with scopes := scopes.pushFrame frame } bindings =
      { s with
        scopes := scopes.pushFrame
          { frame with bindings := frame.bindings.insertAll bindings } } := by
  induction bindings generalizing frame with
  | nil =>
      rfl
  | cons binding rest ih =>
      have hfirst :
          { s with scopes := scopes.pushFrame frame }.declare binding.1 binding.2 =
            { s with
              scopes := scopes.pushFrame
                { frame with bindings := frame.bindings.insert binding.1 binding.2 } } := by
        simp only [Session.declare, Scopes.declare_pushFrame]
      calc Eval.declareAll { s with scopes := scopes.pushFrame frame } (binding :: rest)
          = Eval.declareAll
              ({ s with scopes := scopes.pushFrame frame }.declare binding.1 binding.2) rest := rfl
        _ = _ := by rw [hfirst, ih]; rfl

/-- The frame of a call holds the parameters and nothing else. -/
theorem Session.called_eq (s : Session H) (bindings : List (String × Value)) :
    s.called bindings =
      { s with
        scopes := s.scopes.pushBound bindings
        callDepth := s.callDepth + 1 } :=
  Eval.declareAll_pushFrame { s with callDepth := s.callDepth + 1 } s.scopes ⟨.empty, none⟩ bindings

/-- Below the limit a call is entered. -/
theorem Session.enterCall_of_lt
    {s : Session H} (h : s.callDepth < s.maxCallDepth) :
    s.enterCall = .ok { s with callDepth := s.callDepth + 1 } := by
  unfold Session.enterCall
  rw [if_neg (by omega)]

/-- At the limit a call is refused, and the limit is named. -/
theorem Session.enterCall_of_le
    {s : Session H} (h : s.maxCallDepth ≤ s.callDepth) :
    s.enterCall = .error (.callLimit s.maxCallDepth) := by
  unfold Session.enterCall
  rw [if_pos h]

/-- The last frame is not closed; whatever came before, this is a fault. -/
theorem Eval.closeFrame_of_atRoot
    {s : Session H} (h : s.scopes.atRoot = true) (outcome : Outcome) :
    Eval.closeFrame outcome s = some (.failed .rootFrame, s) := by
  unfold Eval.closeFrame
  rw [if_pos h]

/-- Any other frame is closed, and the outcome stays as it is. -/
theorem Eval.closeFrame_of_not_atRoot
    {s : Session H} (h : s.scopes.atRoot = false) (outcome : Outcome) :
    Eval.closeFrame outcome s = some (outcome, s.closeScope) := by
  unfold Eval.closeFrame
  rw [if_neg (by simp [h])]
  rfl

/-- Why a call is refused before anything of the function runs. -/
inductive Eval.CallRefused (name : String) (limit : Nat) : EvalFault → Prop
  | unknown : CallRefused name limit (.unknownFunction name)
  | arity (expected actual : Nat) : CallRefused name limit (.arity name expected actual)
  | limit : CallRefused name limit (.callLimit limit)

/-- A call is refused, or runs a function of the host, or evaluates the code of a function. -/
theorem Eval.invoke_cases (name : String) (args : List Value) (s : Session H) :
    (∃ fault, Eval.CallRefused name s.maxCallDepth fault ∧
      ∀ ev, Eval.invoke ev name args s = some (.failed fault, s)) ∨
    (∃ run, s.functions.get? name = some (.native run) ∧
      ∀ ev, Eval.invoke ev name args s =
        some (.ofExcept (run s.console args s.host).1,
          { s with host := (run s.console args s.host).2 })) ∨
    (∃ params body bindings, s.functions.get? name = some (.user params body) ∧
      s.callDepth < s.maxCallDepth ∧
      ∀ ev, Eval.invoke ev name args s = Eval.callBody ev body bindings s) := by
  unfold Eval.invoke
  cases s.functions.get? name with
  | none =>
      exact .inl ⟨_, .unknown, fun _ => rfl⟩
  | some function =>
      cases function with
      | native run =>
          exact .inr (.inl ⟨run, rfl, fun _ => rfl⟩)
      | user params body =>
          cases hbind : Eval.bindArguments name args params with
          | error fault =>
              refine .inl ⟨fault, ?_, fun _ => by simp only [hbind]⟩
              cases params with
              | variadic parameter =>
                  cases hbind
              | fixed names =>
                  rw [Eval.bindArguments] at hbind
                  split at hbind
                  · cases hbind
                  · cases hbind
                    exact .arity _ _
          | ok bindings =>
              by_cases hlimit : s.callDepth < s.maxCallDepth
              · refine .inr (.inr ⟨params, body, bindings, rfl, hlimit, fun ev => ?_⟩)
                simp only [hbind, Session.enterCall_of_lt hlimit]
                rfl
              · refine .inl ⟨_, .limit, fun ev => ?_⟩
                simp only [hbind, Session.enterCall_of_le (Nat.not_lt.mp hlimit)]

end Sessions

end DocScript
