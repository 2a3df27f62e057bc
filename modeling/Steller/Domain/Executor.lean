import Steller.Domain.History

/-!
# The executor

Where a command becomes both an in-memory effect and a durable one: apply it to
the cache, then append it to the log if it is a write.  The executor is generic
over the repository, as the source is, and the two effects are two calls: a
cache failure comes back before anything is logged, a failed append comes back
after the cache has changed.
-/

namespace Steller

/-- Failure crossing the persistence boundary, opaque to the domain. -/
inductive RepositoryError where
  | generic
deriving DecidableEq

/-- Failure from the executor on the command path. -/
inductive ExecuteError where
  | cache (error : CacheError)
  | repository (error : RepositoryError)
deriving DecidableEq

/-- The outbound persistence port, as far as the executor uses it. -/
class CacheRepository (R : Type) where
  /-- Durably log one state-mutating command. -/
  append : R → WriteCommand → Except RepositoryError Unit × R

/-- The command orchestrator: a cache and a repository. -/
structure Executor (R : Type) where
  cache : Cache
  cacheRepo : R

namespace Executor

variable {R : Type}

/-- Run a command against the cache only. -/
def execute (self : Executor R) (now later : Reading) (command : CacheCommand) :
    Except ExecuteError CommandOutcome × Executor R :=
  match self.cache.execute now later command with
  | (.error e, cache) => (.error (.cache e), { self with cache })
  | (.ok outcome, cache) => (.ok outcome, { self with cache })

/-- Run a command and, if it is a write, append it to the log. -/
def executeLogged [CacheRepository R] (self : Executor R) (now later : Reading)
    (command : CacheCommand) : Except ExecuteError CommandOutcome × Executor R :=
  match self.execute now later command with
  | (.error e, self) => (.error e, self)
  | (.ok outcome, self) => match command with
    | .read _ => (.ok outcome, self)
    | .write wc => match CacheRepository.append self.cacheRepo wc with
      | (.error e, cacheRepo) => (.error (.repository e), { self with cacheRepo })
      | (.ok (), cacheRepo) => (.ok outcome, { self with cacheRepo })

/-- One step of a sequential history, with commands on the logged path. -/
def step [CacheRepository R] (self : Executor R) : Step → Executor R
  | .command cc now later => (self.executeLogged (.ok now) (.ok later) cc).2
  | .sweep now => { self with cache := (self.cache.removeExpired (.ok now)).2 }

/-- A sequential history on the logged path. -/
def runSteps [CacheRepository R] (self : Executor R) (steps : List Step) : Executor R :=
  steps.foldl step self

/-- Where a write goes after it has been applied. -/
def log [CacheRepository R] (repo : R) : Step → R
  | .command (.write wc) _ _ => (CacheRepository.append repo wc).2
  | .command (.read _) _ _ => repo
  | .sweep _ => repo

/-- A step is applied and logged independently: the cache does not notice the repository, not
even when it fails. -/
theorem step_eq [CacheRepository R] (self : Executor R) (s : Step) :
    self.step s = ⟨s.run self.cache, log self.cacheRepo s⟩ := by
  cases s with
  | sweep now => rfl
  | command cc now later =>
      obtain ⟨outcome, h⟩ := Cache.execute_eq self.cache now later cc
      rw [step, executeLogged, execute, Step.run, h]
      cases cc with
      | read rc => rfl
      | write wc =>
          simp only [log]
          rcases CacheRepository.append self.cacheRepo wc with ⟨_ | ⟨⟩, repo⟩ <;> rfl

theorem runSteps_eq [CacheRepository R] (self : Executor R) (steps : List Step) :
    self.runSteps steps = ⟨Steller.runSteps self.cache steps, steps.foldl log self.cacheRepo⟩ := by
  induction steps generalizing self with
  | nil => rfl
  | cons s steps ih =>
      rw [show self.runSteps (s :: steps) = (self.step s).runSteps steps from rfl, ih, step_eq]
      rfl

end Executor

end Steller
