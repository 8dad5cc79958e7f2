import DocScript.Proofs.LocalWrites

/-!
# Reading back a local write

There are two ways to write a local name. One answers with the value that has been evaluated,
the other writes it and then looks the name up again. They come to the same, as a look-up
after a write stops at the frame that the write went to. Either a visible frame bound the name
before; then the write bound no name anew, and the look-up goes the way that the write went. Or
none did; then the name is in the current frame now, where every look-up starts.

The frames that the value has been evaluated in do not matter. Whatever names they have been
given, evaluation leaves well-formed frames behind, which is all that is asked for.

**Results.**
* `Scopes.owner?_assign_self`: the frame that a name is found in after it has been written.
* `Session.getLocal_setLocal`: what has been written is read back.
* `local_write_reads_back`: the two constructs come to the same.
-/

namespace DocScript

namespace Scopes

variable {scopes : Scopes} {name : String}

theorem chain_assign (h : scopes.WellFormed) (name : String) (value : Value) :
    (scopes.assign name value).chain = scopes.chain :=
  ((SameShape.refl scopes).assign name value).chain_eq h

/-- A write goes to a frame that there is. -/
theorem owner?_getD_lt (h : scopes.WellFormed) (name : String) :
    (scopes.owner? name).getD scopes.current < scopes.depth := by
  cases howner : scopes.owner? name with
  | some index =>
      exact lt_of_mem_chain h (owner?_eq_some howner).1
  | none =>
      exact h.current_lt

/-- A look-up after a write stops at the frame that the write went to. -/
theorem owner?_assign_self (h : scopes.WellFormed) (name : String) (value : Value) :
    (scopes.assign name value).owner? name =
      some ((scopes.owner? name).getD scopes.current) := by
  have hbinds := binds_bindAt_iff scopes (owner?_getD_lt h name) name value
  have hwritten : (scopes.assign name value).Binds
      ((scopes.owner? name).getD scopes.current) name := (hbinds _ _).mpr (.inl ⟨rfl, rfl⟩)
  rw [owner?, chain_assign h]
  cases howner : scopes.owner? name with
  | none =>
      rw [howner] at hwritten
      obtain ⟨outer, hchain⟩ := exists_chain_eq_cons h
      rw [hchain]
      exact List.find?_cons_of_pos hwritten
  | some target =>
      -- The frame has bound the name before, so every frame binds what it bound.
      have hbound := (owner?_eq_some howner).2
      have hsame (index : Nat) :
          (scopes.assign name value).Binds index name ↔ scopes.Binds index name := by
        rw [assign, hbinds, howner]
        refine ⟨?_, .inr⟩
        rintro (⟨rfl, -⟩ | hbefore)
        · exact hbound
        · exact hbefore
      have htest : (fun index => ((scopes.assign name value).frame index).bindings.contains name) =
          fun index => (scopes.frame index).bindings.contains name :=
        funext fun index => Bool.eq_iff_iff.mpr (hsame index)
      rw [htest]
      exact howner

/-- A look-up after a write finds what has been written. -/
theorem lookup?_assign_self (h : scopes.WellFormed) (name : String) (value : Value) :
    (scopes.assign name value).lookup? name = some value := by
  rw [lookup?, owner?_assign_self h, Option.bind_some, assign, frame_bindAt,
    if_pos ⟨rfl, owner?_getD_lt h name⟩]
  exact Table.get?_insert_self _ name value

end Scopes

section Sessions

variable {H : Type} {s s' : Session H}

theorem Session.getLocal_setLocal (h : s.scopes.WellFormed) (name : String) (value : Value) :
    (s.setLocal name value).getLocal name = .ok value := by
  have hlookup : (s.setLocal name value).scopes.lookup? name = some value :=
    Scopes.lookup?_assign_self h name value
  rw [getLocal, hlookup]

/-- Evaluation leaves well-formed frames behind. -/
theorem eval_wellFormed (h : s.scopes.WellFormed) {fuel : Nat} {node : Node} {outcome : Outcome}
    (heval : eval fuel node s = some (outcome, s')) : s'.scopes.WellFormed :=
  (eval_writes h heval).shape.wellFormed h

/-- What the construct answers with is the value of its tree. -/
theorem eval_localVar (h : s.scopes.WellFormed) (fuel : Nat) (name : String) (value : Node) :
    eval (fuel + 1) (.localVar name (some value)) s =
      (eval fuel value s).andThen fun v s' => some (.value v, s'.setLocal name v) := by
  refine Run.andThen_congr fun v s' heval => ?_
  rw [Eval.answer, Session.getLocal_setLocal (eval_wellFormed h heval)]
  rfl

/--
To write a local name and look it up is to write it and answer with what has been written. The
two constructs come to the same outcome and leave the same session, whatever the name, the
tree for its value and the frames around are. The look-up finds the value in the session that
the tree has left, however that tree itself has treated the name, so that a fault of the
construct is always one of the tree.
-/
theorem local_write_reads_back (h : s.scopes.WellFormed) (fuel : Nat) (name : String)
    (value : Node) :
    eval fuel (.localVar name (some value)) s = eval fuel (.setLocal name value) s ∧
    (∀ v s', eval fuel value s = some (.value v, s') →
      (s'.setLocal name v).getLocal name = .ok v ∧
      eval (fuel + 1) (.localVar name (some value)) s = some (.value v, s'.setLocal name v)) ∧
    ∀ fault s', eval (fuel + 1) (.localVar name (some value)) s = some (.failed fault, s') ↔
      eval fuel value s = some (.failed fault, s') := by
  refine ⟨?_, fun v s' heval => ⟨?_, ?_⟩, fun fault s' => ?_⟩
  · cases fuel with
    | zero =>
        rfl
    | succ fuel =>
        exact eval_localVar h fuel name value
  · exact Session.getLocal_setLocal (eval_wellFormed h heval) name v
  · rw [eval_localVar h, heval, Run.andThen_value]
  · rw [eval_localVar h]
    rcases eval fuel value s with _ | ⟨outcome, s''⟩
    · rfl
    · cases outcome with
      | value v =>
          simp
      | returned v | failed source =>
          rfl

end Sessions

/-- Writes `x` of a frame further out, then `z` in a frame that is closed again. -/
def Node.droppedWrite : Node :=
  .block
    [.setLocal "x" (.literal (.boolean true)),
      .branch (.literal (.boolean true)) (.setLocal "z" (.literal (.number 1))) none]

theorem local_write_reads_back_droppedWrite :
    Session.inCall.scopes.WellFormed ∧
    eval 6 (.localVar "z" (some Node.droppedWrite)) Session.inCall =
      eval 6 (.setLocal "z" Node.droppedWrite) Session.inCall ∧
    ∃ s', eval 5 Node.droppedWrite Session.inCall = some (.value (.number 1), s') ∧
      s'.scopes.contains "z" = false ∧
      (s'.setLocal "z" (.number 1)).getLocal "z" = .ok (.number 1) := by
  have hformed := Session.inCall_wellFormed
  have heval : ∃ s', eval 5 Node.droppedWrite Session.inCall = some (.value (.number 1), s') ∧
      s'.scopes.contains "z" = false :=
    ⟨_, rfl, by decide⟩
  obtain ⟨s', heval, hdropped⟩ := heval
  have hread := (local_write_reads_back hformed 5 "z" Node.droppedWrite).2.1 _ _ heval
  exact ⟨hformed, (local_write_reads_back hformed 6 "z" Node.droppedWrite).1, s', heval, hdropped,
    hread.1⟩

end DocScript
