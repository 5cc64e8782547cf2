import EntitySdl.Proofs.RootBodies

/-! # Texts behind more characters

What is matched in a text is a matter of what stands behind a place, and not of how
much stands before it.  If more characters stand before a text, the same definitions
are read in it, and the places of all nodes are moved by their number.
-/
namespace EntitySdl
namespace Sdl

open Name Text Grammar Cursor Sdl.Tree

/-- The same place behind more characters. -/
def Cursor.shift (more : Nat) (c : Cursor) : Cursor := ⟨c.offset + more, c.rest⟩

namespace Tree

variable {ρ : Type}

mutual

/-- A tree with all its nodes at other places. -/
def relocate (move : Nat → Nat) : Tree ρ → Tree ρ
  | node rule start text children => node rule (move start) text (relocateAll move children)

/-- Several trees with all their nodes at other places. -/
def relocateAll (move : Nat → Nat) : List (Tree ρ) → List (Tree ρ)
  | [] => []
  | tree :: trees => tree.relocate move :: relocateAll move trees

end

variable {move : Nat → Nat}

theorem relocateAll_eq_map (ts : List (Tree ρ)) : relocateAll move ts = ts.map (relocate move) := by
  induction ts with
  | nil => rfl
  | cons t ts ih => rw [relocateAll, List.map_cons, ih]

theorem relocateAll_append (ts us : List (Tree ρ)) :
    relocateAll move (ts ++ us) = relocateAll move ts ++ relocateAll move us := by
  simp only [relocateAll_eq_map, List.map_append]

@[simp] theorem rule_relocate (t : Tree ρ) : (t.relocate move).rule = t.rule := by
  cases t
  rw [relocate]
  rfl

end Tree

namespace Cursor

variable (more : Nat)

theorem behindIgnored_shift (inComment : Bool) (offset : Nat) (cs : List Char) :
    behindIgnored inComment (offset + more) cs =
      (behindIgnored inComment offset cs).shift more := by
  fun_induction behindIgnored inComment offset cs with
  | case1 => rfl
  | case2 offset c cs ih => rw [behindIgnored, Nat.add_right_comm, ih]
  | case3 offset c cs h ih => rw [behindIgnored, if_pos h, Nat.add_right_comm, ih]
  | case4 offset c cs h h' ih => rw [behindIgnored, if_neg h, if_pos h', Nat.add_right_comm, ih]
  | case5 offset c cs h h' =>
    rw [behindIgnored, if_neg h, if_neg h']
    rfl

theorem skip_shift (c : Cursor) (mode : Mode) : (c.shift more).skip mode = (c.skip mode).shift more := by
  cases mode with
  | spaced => exact behindIgnored_shift more false c.offset c.rest
  | tight | token => rfl

theorem textTo_shift (c d : Cursor) : (c.shift more).textTo (d.shift more) = c.textTo d := by
  rw [textTo, textTo, shift, shift, Nat.add_sub_add_right]

end Cursor

section Running

variable {ρ : Type} {g : Grammar ρ} (more : Nat)

/-- What is found behind more characters. -/
def Outcome.shift : Outcome ρ → Outcome ρ
  | .matched d ts => .matched (d.shift more) (relocateAll (· + more) ts)
  | .failed => .failed
  | .exhausted => .exhausted

theorem RuleBody.node_shift (r : RuleBody ρ) (name : ρ) (mode : Mode) (c d : Cursor)
    (ts : List (Tree ρ)) :
    r.node name mode (c.shift more) (d.shift more) (relocateAll (· + more) ts) =
      relocateAll (· + more) (r.node name mode c d ts) := by
  rw [RuleBody.node, RuleBody.node]
  split
  · rfl
  · rw [textTo_shift, relocateAll, relocate]
    rfl

/-- Matching goes on in the same way behind more characters. -/
theorem run_shift (fuel : Nat) :
    (∀ mode e c, g.run fuel mode e (c.shift more) = (g.run fuel mode e c).shift more) ∧
      ∀ mode e c ts, g.repeatFrom fuel mode e (c.shift more) (relocateAll (· + more) ts) =
        (g.repeatFrom fuel mode e c ts).shift more := by
  induction fuel with
  | zero => exact ⟨fun mode e c => by rw [run, run]; rfl, fun mode e c ts => by
      rw [repeatFrom, repeatFrom]; rfl⟩
  | succ fuel ih =>
    obtain ⟨ihrun, ihrepeat⟩ := ih
    constructor
    · intro mode e c
      cases e with
      | text chars =>
        rw [run, run, Cursor.shift]
        cases dropStart? chars c.rest with
        | none => rfl
        | some rest => simp [Outcome.shift, Cursor.shift, Nat.add_right_comm, relocateAll]
      | charWhere accepts =>
        rw [run, run, Cursor.shift]
        cases c.rest with
        | nil => rfl
        | cons x rest =>
          by_cases hx : accepts x <;>
            simp [hx, Outcome.shift, Cursor.shift, Nat.add_right_comm, relocateAll]
      | finish =>
        rw [run, run]
        by_cases hend : c.rest.isEmpty <;> simp [Cursor.shift, hend, Outcome.shift, relocateAll]
      | rule name =>
        rw [run, run]
        simp only [ihrun]
        cases g.run fuel ((g name).modeIn mode) (g name).body c with
        | matched d ts => simp only [Outcome.shift, RuleBody.node_shift]
        | failed | exhausted => rfl
      | seq first second =>
        rw [run, run]
        simp only [ihrun]
        cases g.run fuel mode first c with
        | matched m ts =>
          simp only [Outcome.shift, skip_shift, ihrun]
          cases g.run fuel mode second (m.skip mode) with
          | matched d us => simp only [relocateAll_append]
          | failed | exhausted => rfl
        | failed | exhausted => rfl
      | choice first second =>
        rw [run, run]
        simp only [ihrun]
        cases g.run fuel mode first c <;> simp only [Outcome.shift]
      | optional inner =>
        rw [run, run]
        simp only [ihrun]
        cases g.run fuel mode inner c <;> simp [Outcome.shift, relocateAll]
      | many inner =>
        rw [run, run]
        simp only [ihrun]
        cases g.run fuel mode inner c with
        | matched m ts => exact ihrepeat mode inner m ts
        | failed | exhausted => rfl
      | never inner =>
        rw [run, run]
        simp only [ihrun]
        cases g.run fuel mode inner c <;> simp [Outcome.shift, relocateAll]
    · intro mode e c ts
      rw [repeatFrom, repeatFrom, skip_shift]
      simp only [ihrun]
      cases g.run fuel mode e (c.skip mode) with
      | matched m us =>
        simp only [Outcome.shift, ← relocateAll_append]
        exact ihrepeat mode e m (ts ++ us)
      | failed | exhausted => rfl

theorem Matches.shift {mode : Mode} {e : Peg ρ} {c d : Cursor} {ts : List (Tree ρ)}
    (h : g.Matches mode e c d ts) :
    g.Matches mode e (c.shift more) (d.shift more) (relocateAll (· + more) ts) := by
  obtain ⟨fuel, hrun⟩ := h
  exact ⟨fuel, by rw [(run_shift more fuel).1, hrun]; rfl⟩

end Running

/-- **Definitions are read again behind more characters.** -/
theorem Grammar.Definitions.shift {c : Cursor} {ts : List (Tree Rule)} (h : Definitions c ts)
    (hc : c.skip .spaced = c) (more : Nat) :
    Definitions (c.shift more) (relocateAll (· + more) ts) := by
  induction h with
  | done hend => exact .done hend
  | @next c d t ts h hrest ih =>
    have hfound := Matches.shift more (definition_found hc h hrest.follows)
    have hbehind := ih (skip_skip d)
    rw [← skip_shift] at hbehind
    exact .next hfound.derives hbehind

end Sdl
end EntitySdl
