import Mathlib.Data.List.Basic
import Mathlib.Tactic.Common

/-!
# Computations that call a fetcher

A function that takes a callback `Address → Except Failure Content` and may call
it any number of times, choosing each address from the earlier answers, is a
tree: it is done, or it fetches an address and goes on with the answer.  Writing
it as a tree says by its type that the result depends on the callback only
through the answers to the addresses it asked for (`run_congr`).

A computation that fails as soon as one of its fetches fails (`FailFast`)
succeeds in the same way over every fetcher that knows more (`run_of_extends`).
`collect` builds such computations: fetch a list of addresses, then go on.
-/

/-- A computation over a fetcher. -/
inductive Fetching (Address Content Failure Result : Type*)
  | done (result : Except Failure Result)
  | fetch (address : Address)
      (next : Except Failure Content → Fetching Address Content Failure Result)

namespace Fetching

variable {Address Content Failure Result : Type*}

/-- The result over a given fetcher. -/
def run (fetcher : Address → Except Failure Content) :
    Fetching Address Content Failure Result → Except Failure Result
  | done result => result
  | fetch address next => run fetcher (next (fetcher address))

/-- The addresses asked for over a given fetcher, in order. -/
def asked (fetcher : Address → Except Failure Content) :
    Fetching Address Content Failure Result → List Address
  | done _ => []
  | fetch address next => address :: asked fetcher (next (fetcher address))

/-- Two fetchers that agree on the addresses asked for give the same result. -/
theorem run_congr (computation : Fetching Address Content Failure Result)
    {first second : Address → Except Failure Content}
    (hagree : ∀ address ∈ computation.asked first, first address = second address) :
    computation.run first = computation.run second := by
  induction computation with
  | done result => rfl
  | fetch address next ih =>
      simp only [asked, List.mem_cons, forall_eq_or_imp] at hagree
      rw [run, run, ← hagree.1]
      exact ih _ hagree.2

/-- A success means that no fetch failed. -/
def FailFast (computation : Fetching Address Content Failure Result) : Prop :=
  ∀ fetcher result, computation.run fetcher = .ok result →
    ∀ address ∈ computation.asked fetcher, ∃ content, fetcher address = .ok content

/-- A success over one fetcher is the same success over every fetcher that
gives the same contents and possibly more. -/
theorem run_of_extends {computation : Fetching Address Content Failure Result}
    (hfast : computation.FailFast) {first second : Address → Except Failure Content}
    (hextends : ∀ address content, first address = .ok content → second address = .ok content)
    {result : Result} (hrun : computation.run first = .ok result) :
    computation.run second = .ok result := by
  rw [← hrun]
  symm
  apply run_congr
  intro address hasked
  obtain ⟨content, hcontent⟩ := hfast first result hrun address hasked
  rw [hcontent, hextends address content hcontent]

/-! ## Fetching a list of addresses -/

/-- Fetch the addresses in order, fail with the first failure, and go on with
the contents. -/
def collect : List Address → (List Content → Fetching Address Content Failure Result) →
    Fetching Address Content Failure Result
  | [], next => next []
  | address :: rest, next =>
      fetch address fun
        | .error failure => done (.error failure)
        | .ok content => collect rest fun contents => next (content :: contents)

/-- `collect` goes on with the contents of all the addresses, or fails with the
failure of one of them. -/
theorem run_collect_cases (fetcher : Address → Except Failure Content) (addresses : List Address)
    (next : List Content → Fetching Address Content Failure Result) :
    (∃ contents, addresses.map fetcher = contents.map .ok ∧
      (collect addresses next).run fetcher = (next contents).run fetcher) ∨
    ∃ address ∈ addresses, ∃ cause, fetcher address = .error cause ∧
      (collect addresses next).run fetcher = .error cause := by
  induction addresses generalizing next with
  | nil => exact .inl ⟨[], rfl, rfl⟩
  | cons address rest ih =>
      cases hfirst : fetcher address with
      | error cause =>
          exact .inr ⟨address, List.mem_cons_self, cause, hfirst, by simp [collect, run, hfirst]⟩
      | ok content =>
          have hrun : (collect (address :: rest) next).run fetcher =
              (collect rest fun contents => next (content :: contents)).run fetcher := by
            simp only [collect, run, hfirst]
          rw [hrun]
          rcases ih fun contents => next (content :: contents) with
            ⟨contents, hmap, hnext⟩ | ⟨other, hother, hfails⟩
          · exact .inl ⟨content :: contents, by simp [hfirst, hmap], hnext⟩
          · exact .inr ⟨other, List.mem_cons_of_mem _ hother, hfails⟩

theorem failFast_collect (addresses : List Address)
    {next : List Content → Fetching Address Content Failure Result}
    (hnext : ∀ contents, (next contents).FailFast) : (collect addresses next).FailFast := by
  induction addresses generalizing next with
  | nil => exact hnext []
  | cons address rest ih =>
      intro fetcher result hrun
      simp only [collect, run, asked, List.mem_cons, forall_eq_or_imp] at hrun ⊢
      cases hfirst : fetcher address with
      | error failure => simp [hfirst, run] at hrun
      | ok content =>
          rw [hfirst] at hrun
          exact ⟨⟨content, rfl⟩, ih (fun contents => hnext _) fetcher result hrun⟩

end Fetching
