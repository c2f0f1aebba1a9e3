import AutonomiWebrtc.Dtls.Replay

/-!
# What an unprotected record can do

Records of epoch zero are not protected, and the reader takes them at any time, also long
after the keys are there.  An alert of epoch zero is obeyed, and a record of epoch zero that
cannot be decoded is answered with a fatal alert; both end the reader, whether it has keys or
not.
-/

namespace AutonomiWebrtc.Dtls

open Readers ConnReaderContext

section Plaintext

variable {Suite Detector : Type} {suites : CipherSuites Suite}
  {detectors : ReplayDetectors Detector}

/-- The phase after a datagram of one record. -/
def Outcome.phase : Outcome → Phase
  | .panicked => .stopped
  | .returned hs none none => if hs then .waiting else .reading
  | .returned _ none (some err) => .afterError err
  | .returned hs (some alert) err =>
      if alert.alertLevel = .fatal ∨ alert.alertDescription = .closeNotify then .stopped
      else
        match err with
        | some err => .afterError err
        | none => if hs then .waiting else .reading

end Plaintext

end AutonomiWebrtc.Dtls
