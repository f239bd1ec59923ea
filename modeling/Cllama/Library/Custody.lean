import Mathlib.Algebra.Order.Group.Multiset
import Mathlib.Data.List.Perm.Basic
import Mathlib.Tactic.Abel

/-!
# Custody of resources

Tasks run side by side and hold resources; a store they share holds resources as well.  The
resources are in custody if each of them is held exactly once: then no task uses a resource that
another one can take away, and none is forgotten.  Custody is kept by every step whose balance
is even.
-/

namespace Cllama.Library

universe u v

variable {τ : Type u} {ρ : Type v}

/-! ## Tasks side by side -/

/-- A task becomes another one, or comes to its end. -/
def replaceTask (i : Nat) (next : Option τ) (tasks : List τ) : List τ :=
  match next with
  | some task => tasks.set i task
  | none => tasks.eraseIdx i

theorem mem_replaceTask {i : Nat} {next : Option τ} {tasks : List τ} {task : τ}
    (member : task ∈ replaceTask i next tasks) : task ∈ tasks ∨ next = some task := by
  cases next with
  | none => exact Or.inl (List.mem_of_mem_eraseIdx member)
  | some other =>
      rcases List.mem_or_eq_of_mem_set member with old | rfl
      · exact Or.inl old
      · exact Or.inr rfl

variable (held : τ → List ρ)

/-- What some tasks hold together. -/
def holdings (tasks : List τ) : Multiset ρ :=
  tasks.flatMap held

theorem holdings_cons (task : τ) (tasks : List τ) :
    holdings held (task :: tasks) = held task + holdings held tasks := by
  rw [holdings, List.flatMap_cons, ← Multiset.coe_add, holdings]

theorem holdings_perm {left right : List τ} (perm : left.Perm right) :
    holdings held left = holdings held right :=
  Multiset.coe_eq_coe.mpr (perm.flatMap_right held)

theorem mem_holdings {tasks : List τ} {resource : ρ} :
    resource ∈ holdings held tasks ↔ ∃ task ∈ tasks, resource ∈ held task := by
  rw [holdings, Multiset.mem_coe, List.mem_flatMap]

/-- The tasks hold what one of them holds and what the others hold. -/
theorem holdings_eraseIdx {i : Nat} {tasks : List τ} {task : τ} (found : tasks[i]? = some task) :
    holdings held tasks = held task + holdings held (tasks.eraseIdx i) := by
  rcases List.getElem?_eq_some_iff.mp found with ⟨bound, rfl⟩
  rw [← holdings_cons]
  exact holdings_perm held (List.getElem_cons_eraseIdx_perm bound).symm

theorem holdings_set {i : Nat} {tasks : List τ} (bound : i < tasks.length) (next : τ) :
    holdings held (tasks.set i next) = held next + holdings held (tasks.eraseIdx i) := by
  rw [← holdings_cons]
  exact holdings_perm held (List.set_perm_cons_eraseIdx bound next)

/-- What a task holds is exchanged for what it holds next. -/
theorem holdings_replaceTask {i : Nat} {tasks : List τ} {task : τ}
    (found : tasks[i]? = some task) (next : Option τ) :
    holdings held (replaceTask i next tasks) + held task =
      holdings held tasks + (next.elim [] held : List ρ) := by
  rw [holdings_eraseIdx held found]
  cases next with
  | none =>
      rw [replaceTask, Option.elim_none, Multiset.coe_nil, add_zero]
      exact add_comm _ _
  | some next =>
      rcases List.getElem?_eq_some_iff.mp found with ⟨bound, -⟩
      rw [replaceTask, Option.elim_some, holdings_set held bound]
      abel

/-! ## Custody -/

/-- Every resource is held once, by the store or by a task. -/
structure Custody (resources store : Multiset ρ) (tasks : List τ) : Prop where
  nodup : resources.Nodup
  covers : store + holdings held tasks = resources

namespace Custody

variable {held} {resources store resources' store' : Multiset ρ} {tasks : List τ}

theorem mem_of_store (custody : Custody held resources store tasks) {resource : ρ}
    (stored : resource ∈ store) : resource ∈ resources := by
  rw [← custody.covers]
  exact Multiset.mem_add.mpr (Or.inl stored)

theorem mem_of_task (custody : Custody held resources store tasks) {task : τ}
    (member : task ∈ tasks) {resource : ρ} (holds : resource ∈ held task) :
    resource ∈ resources := by
  rw [← custody.covers]
  exact Multiset.mem_add.mpr (Or.inr ((mem_holdings held).mpr ⟨task, member, holds⟩))

/-- What a task holds is not in the store. -/
theorem not_mem_store (custody : Custody held resources store tasks) {task : τ}
    (member : task ∈ tasks) {resource : ρ} (holds : resource ∈ held task) :
    resource ∉ store := by
  have nodup := custody.nodup
  rw [← custody.covers] at nodup
  intro stored
  exact Multiset.disjoint_left.mp (Multiset.nodup_add.mp nodup).2.2 stored
    ((mem_holdings held).mpr ⟨task, member, holds⟩)

/-- A task begins with resources that are new. -/
theorem begin (custody : Custody held resources store tasks) (task : τ)
    (fresh : ((held task : Multiset ρ) + resources).Nodup) :
    Custody held (held task + resources) store (task :: tasks) where
  nodup := fresh
  covers := by
    rw [holdings_cons, ← custody.covers]
    abel

/-- A step of a task whose balance is even. -/
theorem step (custody : Custody held resources store tasks) {i : Nat} {task : τ}
    (found : tasks[i]? = some task) (next : Option τ)
    (balance : store' + (next.elim [] held : List ρ) + resources =
      store + held task + resources')
    (nodup : resources'.Nodup) :
    Custody held resources' store' (replaceTask i next tasks) where
  nodup := nodup
  covers := by
    have exchanged := holdings_replaceTask held found next
    apply add_right_cancel (b := (held task : Multiset ρ) + store)
    calc store' + holdings held (replaceTask i next tasks) + (held task + store)
        = store' + store + (holdings held (replaceTask i next tasks) + held task) := by abel
      _ = store' + (next.elim [] held : List ρ) + (store + holdings held tasks) := by
          rw [exchanged]
          abel
      _ = store + held task + resources' := by rw [custody.covers, balance]
      _ = resources' + (held task + store) := by abel

end Custody

end Cllama.Library
