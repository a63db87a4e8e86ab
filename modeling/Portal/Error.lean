/-!
# The refusals of the API and of the forge (`error.rs`: `ApiError`; `gitea.rs`: `GitError`)

The variants the modelled functions answer with, each with the texts it carries.
-/

namespace Portal

inductive ApiError where
  | notFound (text : String)
  | badRequest (text : String)
  /-- one entry per violation -/
  | invalid (detail : String) (errors : List String)
  | unprocessable (detail : String) (errors : List String)
  | denied (text : String)
  | selfApproval (text : String)
  | conflict (text : String)
  | unavailable (text : String)
  | internal (text : String)
deriving DecidableEq

inductive GitError where
  | config (text : String)
  | transport (text : String)
  | notFound
  | conflict (text : String)
  | api (status : Nat) (message : String)
deriving DecidableEq

/-- what a person is told of a refusal of the forge -/
def ApiError.ofGit : GitError → ApiError
  | .notFound => .notFound "resource not found in git repository"
  | .conflict msg => .conflict msg
  | .transport _ => forgeUnavailable
  | .api status _ =>
    if [401, 403, 408, 429].contains status || (500 ≤ status && status ≤ 599) then forgeUnavailable
    else .internal "git operation failed"
  | .config _ => .internal "git operation failed"
where
  forgeUnavailable : ApiError :=
    .unavailable ("The Git repository did not answer the Portal. Try again in a minute; if it "
      ++ "lasts, ask the operator to check the forge and the Portal's forge token.")

end Portal
