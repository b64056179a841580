import Catapulte.Http.Emails

namespace Catapulte

def maxEmailsPerBatch : Nat := 100

structure BatchSubmitEmailRequest where
  emails : List SubmitEmailRequest

inductive BatchItemResultDto
  | accepted (id : String)
  | rejected (error : String)

structure BatchSubmitEmailResponse where
  results : List BatchItemResultDto

section

variable {M : Type → Type} [Monad M] (parsers : Parsers) (showUuid : EmailId → String)
  (execute : Nat → SubmitEmailInput → M (Except SubmitEmailError EmailId))

/-- The loop. The position of an email names its submission; the error of one
leaves the loop. -/
def submitEmails : Nat → List SubmitEmailRequest → List BatchItemResultDto →
    M (Except AppError (List BatchItemResultDto))
  | _, [], results => pure (.ok results)
  | n, emailReq :: emails, results =>
      match emailReq.intoSubmitInput parsers with
      | .error validationErr => submitEmails (n + 1) emails (results ++ [.rejected validationErr.display])
      | .ok input => do
          match ← execute n input with
          | .error e => pure (.error (.submit e))
          | .ok id => submitEmails (n + 1) emails (results ++ [.accepted (showUuid id)])

def submitEmailBatch (request : BatchSubmitEmailRequest) : M (Except AppError BatchSubmitEmailResponse) :=
  if maxEmailsPerBatch < request.emails.length then
    pure (.error (.badRequestRaw "batch exceeds maximum of 100 emails"))
  else do
    match ← submitEmails parsers showUuid execute 0 request.emails [] with
    | .error e => pure (.error e)
    | .ok results => pure (.ok ⟨results⟩)

end

end Catapulte
