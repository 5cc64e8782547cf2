import Mathlib.Data.List.Forall2

/-! # Addresses

A whole consists of parts, which have parts themselves.  Whatever stands somewhere in it
has an address there: the number of its part in the whole, the number of its place in that
part, and so on inwards.  A walk through the parts meets what stands in them in the order
of the addresses.  So what it meets first is known from the addresses alone, and so is the
list of all that it meets.
-/
namespace EntitySdl

variable {α β : Type}

/-- The numbers of the parts in which something stands, from the outermost to the
innermost. -/
abbrev Address := List Nat

namespace Address

/-- One address comes before another if it does so in the outermost parts that differ. -/
inductive Before : Address → Address → Prop where
  /-- The parts differ. -/
  | outer {i j : Nat} {rest other : Address} (h : i < j) : Before (i :: rest) (j :: other)
  /-- The part is the same, and the order is decided in it. -/
  | inner {i : Nat} {rest other : Address} (h : Before rest other) :
      Before (i :: rest) (i :: other)

theorem before_asymm {left right : Address} (h : Before left right) : ¬ Before right left := by
  induction h with
  | outer h =>
    intro h'
    cases h' with
    | outer h' => omega
    | inner => omega
  | inner h ih =>
    intro h'
    cases h' with
    | outer h' => omega
    | inner h' => exact ih h'

/-- The address of the next part at the outermost level. -/
def next : Address → Address
  | [] => []
  | i :: rest => (i + 1) :: rest

theorem before_next {left right : Address} (h : Before left right) :
    Before left.next right.next := by
  cases h with
  | outer h => exact .outer (by omega)
  | inner h => exact .inner h

/-- Something is first if all else that stands somewhere comes behind it. -/
def IsFirst (stands : Address → β → Prop) (value : β) : Prop :=
  ∃ address, stands address value ∧
    ∀ place other, stands place other → place = address ∧ other = value ∨ Before address place

/-- There is one first at most. -/
theorem IsFirst.unique {stands : Address → β → Prop} {value other : β} (h : IsFirst stands value)
    (h' : IsFirst stands other) : value = other := by
  obtain ⟨address, hstands, hbehind⟩ := h
  obtain ⟨place, hplace, hbehind'⟩ := h'
  rcases hbehind place other hplace with ⟨-, heq⟩ | hbefore
  · exact heq.symm
  · rcases hbehind' address value hstands with ⟨-, heq⟩ | hbefore'
    · exact heq
    · exact absurd hbefore' (before_asymm hbefore)

/-- What stands in a part of a whole has an address in the whole. -/
def At (part : Nat) (stands : Address → β → Prop) (address : Address) (value : β) : Prop :=
  ∃ rest, address = part :: rest ∧ stands rest value

/-- All that stands somewhere stands in parts behind the one of a number. -/
def IsBehind (i : Nat) (stands : Address → β → Prop) : Prop :=
  ∀ address value, stands address value → ∃ j rest, address = j :: rest ∧ i < j

theorem isBehind_at {i j : Nat} (stands : Address → β → Prop) (h : i < j) :
    IsBehind i (At j stands) :=
  fun _ _ ⟨rest, haddress, _⟩ => ⟨j, rest, haddress, h⟩

theorem IsBehind.or {i : Nat} {stands stands' : Address → β → Prop} (h : IsBehind i stands)
    (h' : IsBehind i stands') :
    IsBehind i fun address value => stands address value ∨ stands' address value :=
  fun address value => Or.rec (h address value) (h' address value)

theorem IsBehind.before {i : Nat} {stands : Address → β → Prop} (h : IsBehind i stands)
    {rest address : Address} {value : β} (hstands : stands address value) :
    Before (i :: rest) address := by
  obtain ⟨j, inner, rfl, hlt⟩ := h address value hstands
  exact .outer hlt

/-- A list of all that stands somewhere, with the addresses, in their order. -/
structure Enumerates (entries : List (Address × β)) (stands : Address → β → Prop) : Prop where
  /-- Each entry comes before the later ones. -/
  sorted : entries.Pairwise fun entry later => Before entry.1 later.1
  /-- The entries are what stands somewhere. -/
  mem_iff : ∀ address value, (address, value) ∈ entries ↔ stands address value

/-- What stands in the parts of a whole, one part after the other. -/
def collect (parts : List (List (Address × β))) : List (Address × β) :=
  (parts.mapIdx fun i part => part.map fun entry => (i :: entry.1, entry.2)).flatten

/-- Something stands in one of the parts of a whole. -/
def Within (parts : List (Address → β → Prop)) (address : Address) (value : β) : Prop :=
  ∃ i stands rest, parts[i]? = some stands ∧ address = i :: rest ∧ stands rest value

theorem mem_collect_iff {parts : List (List (Address × β))} {address : Address} {value : β} :
    (address, value) ∈ collect parts ↔
      ∃ i part rest, parts[i]? = some part ∧ address = i :: rest ∧ (rest, value) ∈ part := by
  simp only [collect, List.mem_flatten, List.mem_mapIdx]
  constructor
  · rintro ⟨_, ⟨i, hi, rfl⟩, hmem⟩
    obtain ⟨⟨rest, _⟩, hentry, heq⟩ := List.mem_map.mp hmem
    obtain ⟨rfl, rfl⟩ := Prod.mk.inj heq
    exact ⟨i, parts[i], rest, List.getElem?_eq_getElem hi, rfl, hentry⟩
  · rintro ⟨i, part, rest, hpart, rfl, hmem⟩
    obtain ⟨hi, rfl⟩ := List.getElem?_eq_some_iff.mp hpart
    exact ⟨_, ⟨i, hi, rfl⟩, List.mem_map.mpr ⟨(rest, value), hmem, rfl⟩⟩

theorem sorted_collect {parts : List (List (Address × β))}
    (h : ∀ part ∈ parts, part.Pairwise fun entry later => Before entry.1 later.1) :
    (collect parts).Pairwise fun entry later => Before entry.1 later.1 := by
  refine List.pairwise_flatten.mpr ⟨fun part hpart => ?_, ?_⟩
  · obtain ⟨i, hi, rfl⟩ := List.mem_mapIdx.mp hpart
    exact List.pairwise_map.mpr ((h _ (List.getElem_mem hi)).imp .inner)
  · rw [List.pairwise_iff_getElem]
    intro i j hi hj hij entry hentry later hlater
    simp only [List.getElem_mapIdx, List.mem_map] at hentry hlater
    obtain ⟨_, -, rfl⟩ := hentry
    obtain ⟨_, -, rfl⟩ := hlater
    exact .outer hij

theorem map_snd_collect (parts : List (List (Address × β))) :
    (collect parts).map Prod.snd = (parts.map (List.map Prod.snd)).flatten := by
  rw [collect, List.map_flatten]
  refine congrArg List.flatten (List.ext_getElem (by simp) fun i hi hi' => ?_)
  simp [Function.comp_def]

theorem map_snd_collect_map (members : List α) (entries : α → List (Address × β)) :
    (collect (members.map entries)).map Prod.snd =
      members.flatMap fun member => (entries member).map Prod.snd := by
  rw [map_snd_collect, List.map_map, List.flatMap_def]
  rfl

namespace Enumerates

variable {entries : List (Address × β)} {stands stands' : Address → β → Prop}

theorem congr (h : Enumerates entries stands)
    (hiff : ∀ address value, stands address value ↔ stands' address value) :
    Enumerates entries stands' :=
  ⟨h.sorted, fun address value => (h.mem_iff address value).trans (hiff address value)⟩

/-- A value that stands for the whole. -/
theorem singleton (value : β) :
    Enumerates [([], value)] fun address other => address = [] ∧ other = value :=
  ⟨List.pairwise_singleton _ _, fun _ _ => by simp⟩

theorem filter (p : β → Bool) (h : Enumerates entries stands) :
    Enumerates (entries.filter fun entry => p entry.2)
      fun address value => stands address value ∧ p value :=
  ⟨h.sorted.filter _, fun address value => by rw [List.mem_filter, h.mem_iff]⟩

theorem collect {parts : List (List (Address × β))} {stands : List (Address → β → Prop)}
    (h : List.Forall₂ Enumerates parts stands) :
    Enumerates (collect parts) (Within stands) := by
  have hlength : parts.length = stands.length := h.length_eq
  refine ⟨sorted_collect fun part hpart => ?_, fun address value => ?_⟩
  · obtain ⟨i, hi, rfl⟩ := List.mem_iff_getElem.mp hpart
    exact (h.get hi (hlength ▸ hi)).sorted
  · rw [mem_collect_iff]
    constructor
    · rintro ⟨i, part, rest, hpart, rfl, hmem⟩
      obtain ⟨hi, rfl⟩ := List.getElem?_eq_some_iff.mp hpart
      have hpart := h.get hi (hlength ▸ hi)
      exact ⟨i, stands[i], rest, List.getElem?_eq_getElem _, rfl, (hpart.mem_iff _ _).mp hmem⟩
    · rintro ⟨i, there, rest, hthere, rfl, hstands⟩
      obtain ⟨hi, rfl⟩ := List.getElem?_eq_some_iff.mp hthere
      have hpart := h.get (hlength ▸ hi) hi
      exact ⟨i, parts[i], rest, List.getElem?_eq_getElem _, rfl, (hpart.mem_iff _ _).mpr hstands⟩

/-- A walk through the members of a list. -/
theorem collect_map (members : List α) {entries : α → List (Address × β)}
    {stands : α → Address → β → Prop}
    (h : ∀ member ∈ members, Enumerates (entries member) (stands member)) :
    Enumerates (Address.collect (members.map entries)) fun address value =>
      ∃ i member rest, members[i]? = some member ∧ address = i :: rest ∧
        stands member rest value := by
  have hparts : List.Forall₂ Enumerates (members.map entries) (members.map stands) :=
    List.forall₂_map_left_iff.mpr (List.forall₂_map_right_iff.mpr (List.forall₂_same.mpr h))
  refine (collect hparts).congr fun address value => ?_
  simp only [Within, List.getElem?_map, Option.map_eq_some_iff]
  constructor
  · rintro ⟨i, _, rest, ⟨member, hmember, rfl⟩, haddress, hstands⟩
    exact ⟨i, member, rest, hmember, haddress, hstands⟩
  · rintro ⟨i, member, rest, hmember, haddress, hstands⟩
    exact ⟨i, _, rest, ⟨member, hmember, rfl⟩, haddress, hstands⟩

end Enumerates

end Address
end EntitySdl
