import Clearance.Module

/-!
# Registries

A registry maps the names of scopes to modules, in the order in which they were put in. A key
is usually the name of its module, but a registry made from entries need not keep to that;
what a scope declares goes by the key. The order does not count when registries are compared
(`Registry.agrees`), and `Registry.fingerprint` does not depend on it.
-/

namespace Clearance

structure Registry where
  entries : List (String × Module)
  nodup : (entries.map (·.1)).Nodup

namespace Registry

/-- The registry without modules. -/
def empty : Registry := ⟨[], List.nodup_nil⟩

/-- The names of the scopes in order. -/
def scopes (r : Registry) : List String :=
  r.entries.map (·.1)

/-- Whether there is a module under the name. -/
def contains (r : Registry) (scope : String) : Bool :=
  r.scopes.contains scope

/-- The module under the name. -/
def get? (r : Registry) (scope : String) : Option Module :=
  r.entries.lookup scope

/-- The module under the name, which has to be there. -/
def get (r : Registry) (scope : String) : Run Module :=
  match r.get? scope with
  | some m => return m
  | none => throw (.unknownKey scope)

/-- Whether the permission is legal in the scope. -/
def declares (r : Registry) (scope : String) (p : Identifier) : Bool :=
  (r.get? scope).any (·.declares p)

/-- Whether the value is among the permissions of the scope, as it is. -/
def holds (r : Registry) (scope : String) (v : Value) : Run Bool :=
  match r.get? scope with
  | some m => m.holds v
  | none => return false

/-- The legal pairs of a scope and a permission. -/
def pairs (r : Registry) : List (String × Identifier) :=
  r.entries.flatMap fun e => e.2.permissions.map fun p => (e.1, p)

/-- The registry in writing. -/
def shown (r : Registry) : String :=
  "Registry(modules=" ++ Value.braced .view (r.entries.map fun e =>
    Text.quoted e.1 ++ ": " ++ e.2.shown) ++ ")"

/-- The registry with one more module, under a name that is not there. -/
def insert (r : Registry) (scope : String) (m : Module) (h : scope ∉ r.scopes) : Registry :=
  ⟨r.entries ++ [(scope, m)], by
    rw [List.map_append, List.nodup_append]
    refine ⟨r.nodup, by simp, ?_⟩
    rintro a ha b hb rfl
    obtain rfl : a = scope := by simpa using hb
    exact h ha⟩

/-- The entry under `scope` replaced. -/
def replace (scope : String) (m : Module) (es : List (String × Module)) :
    List (String × Module) :=
  es.map fun e => if e.1 = scope then (scope, m) else e

theorem map_fst_replace (scope : String) (m : Module) (es : List (String × Module)) :
    (replace scope m es).map (·.1) = es.map (·.1) := by
  induction es with
  | nil => rfl
  | cons e es ih =>
    simp only [replace, List.map_cons] at ih ⊢
    rw [ih]
    split <;> simp_all

/-- The registry with the module under the name: in the place of the module that is there, or
else at the end. -/
def put (r : Registry) (scope : String) (m : Module) : Registry :=
  if h : scope ∈ r.scopes then
    ⟨replace scope m r.entries, by rw [map_fst_replace]; exact r.nodup⟩
  else r.insert scope m h

/-- The registry of the entries given: a name keeps its first place and its last module. -/
def ofEntries (es : List (String × Module)) : Registry :=
  es.foldl (fun r e => r.put e.1 e.2) empty

/-- Registries with the same modules under the same names are the same. -/
def agrees (r r' : Registry) : Bool :=
  r.entries.length == r'.entries.length &&
    r.entries.all fun e => (r'.get? e.1).any e.2.agrees

/-- A number that does not depend on the order of the entries. -/
def fingerprint (r : Registry) : UInt64 :=
  (r.entries.map fun e => mixHash (hash e.1) e.2.fingerprint).foldr (· + ·) 0

/-! ## Under a name -/

section

variable {r : Registry} {scope : String} {m : Module} {p : Identifier}

/-- The module under a name is the one that was put in with it. -/
theorem get?_eq_some_iff : r.get? scope = some m ↔ (scope, m) ∈ r.entries := by
  constructor
  · intro h
    obtain ⟨before, after, he, -⟩ := List.lookup_eq_some_iff.1 h
    exact he ▸ List.mem_append_right before List.mem_cons_self
  · intro h
    obtain ⟨before, after, he⟩ := List.append_of_mem h
    refine List.lookup_eq_some_iff.2 ⟨before, after, he, fun e hb => ?_⟩
    -- another entry with this name would repeat it
    have hn := r.nodup
    rw [he, List.map_append, List.nodup_append] at hn
    have hne := hn.2.2 _ (List.mem_map_of_mem hb) scope (by simp)
    exact bne_iff_ne.2 hne.symm

/-- A permission is legal in a scope just when the two are one of the legal pairs. -/
theorem declares_iff_mem_pairs : r.declares scope p ↔ (scope, p) ∈ r.pairs := by
  simp only [declares, Option.any_eq_true, get?_eq_some_iff, Module.declares,
    List.contains_eq_mem, decide_eq_true_eq, pairs, List.mem_flatMap, List.mem_map, Prod.mk.injEq]
  constructor
  · rintro ⟨m, hm, hp⟩
    exact ⟨(scope, m), hm, p, hp, rfl, rfl⟩
  · rintro ⟨⟨x, m⟩, hm, q, hq, rfl, rfl⟩
    exact ⟨m, hm, hq⟩

end

end Registry

end Clearance
