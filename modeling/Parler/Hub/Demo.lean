import Parler.Hub.Server

/-!
# A small hub to run

A configuration with the source's default limits and trivial stand-ins for code
outside the repository, two agents, and the run that serves a list of requests
one after the other. Concrete instances of the theorems use it.
-/

namespace Parler.Hub

open Parler.Lib Parler.Protocol

def demoExternals : Externals where
  toLowercase := toAsciiLowercase
  isAlphanumeric := isAsciiAlphanumeric
  bm25 _ _ _ := none
  knn _ _ _ := []
  verify _ _ _ := false
  contentId _ := ""
  floats := bitsFormat

def demoConfig : HubConfig where
  ext := demoExternals
  publicUrl := "http://hub"
  name := "hub"
  vecDim := 768
  maxBlobBytes := 25 * 1024 * 1024
  maxBlobDirBytes := 1024 * 1024 * 1024
  maxMessageBytes := 1024 * 1024
  maxOwnedRooms := 1000
  maxActiveTokens := 1000
  maxKeyedFacts := 10000
  limits := ⟨600, 240, 120, 1200, 600⟩
  retention := ⟨some 2592000000, 10000, some 500, some 1209600000⟩
  joinSecret := none
  frameBytes _ := 0

def demoHub : HubState := .boot (50 * 1024 * 1024)

def alice : Authed := ⟨"A", "alice", none⟩

def bob : Authed := ⟨"B", "bob", none⟩

/-- The names drawn for the `n`-th request of a demonstration. -/
def demoFresh (n : Nat) : Fresh :=
  ⟨"m" ++ toString n, "c" ++ toString n, "s" ++ toString n, "t" ++ toString n⟩

def demoFrame (n : Nat) (me : Authed) (frame : ClientFrame) : Request :=
  .frame me frame (demoFresh n) none 0

abbrev DemoPool := Pool (hubMachine demoConfig) Request (List ServerFrame)

def demoServe : Request → Prog (hubMachine demoConfig) (List ServerFrame) :=
  serve demoConfig (fun _ => [])

/-- Enough steps for any request without a long-poll. -/
def demoSteps : Nat := 20

/-- Serve the requests of threads `t`, `t + 1`, .. one after the other. -/
def demoActions : Nat → List Request → List (Pool.Action Request)
  | _, [] => []
  | t, req :: reqs =>
      .spawn t req :: List.replicate demoSteps (.step t) ++ demoActions (t + 1) reqs

def demoPlay (reqs : List Request) : DemoPool :=
  (Pool.start demoHub).play demoServe (demoActions 0 reqs)

theorem demoPlay_reachable (reqs : List Request) :
    Pool.Reachable demoServe Pool.anySchedule demoHub (demoPlay reqs) :=
  Pool.play_reachable _ _ _

theorem demoActions_spawns {t u : Nat} {req : Request} {reqs : List Request}
    (spawns : .spawn u req ∈ demoActions t reqs) : req ∈ reqs := by
  induction reqs generalizing t with
  | nil => cases spawns
  | cons first reqs ih =>
    rw [demoActions, List.mem_append, List.mem_cons] at spawns
    rcases spawns with (same | step) | later
    · cases same
      exact List.mem_cons_self
    · rw [List.mem_replicate] at step
      cases step.2
    · exact List.mem_cons_of_mem _ (ih later)

/-- The threads of a demonstration serve its requests. -/
theorem demoPlay_spawned {reqs : List Request} {t : Nat} {req : Request}
    {p : Prog (hubMachine demoConfig) (List ServerFrame)}
    (at_t : (demoPlay reqs).threads t = some (req, p)) : req ∈ reqs := by
  rcases Pool.play_spawned demoServe _ _ at_t with ⟨p', before⟩ | spawns
  · cases before
  · exact demoActions_spawns spawns

end Parler.Hub
