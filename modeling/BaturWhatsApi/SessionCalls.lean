import BaturWhatsApi.SessionAgreement

/-!
# Calls on a session

A session begins with one of the two constructors and is then used by calls of `encrypt`
and `decrypt`, in any order and with any envelopes. A call that fails leaves a session
behind too.
-/
namespace BaturWhatsApi.SessionCalls
open ByteStrings CipherSuite RatchetModel SessionSetup SessionAgreement

variable {S : Suite}

inductive Call (S : Suite) where
  | encrypt (fresh : Except Failure S.Priv) (plaintext : Bytes)
  | decrypt (env : Envelope)

inductive Result where
  | sent (out : Except Failure Envelope)
  | opened (out : Except Failure Bytes)
deriving DecidableEq

def exec (r : Ratchet S) : Call S → Result × Ratchet S
  | .encrypt fresh plaintext =>
      (.sent (encrypt fresh plaintext r).1,(encrypt fresh plaintext r).2)
  | .decrypt env => (.opened (decrypt env r).1,(decrypt env r).2)

def Call.after (c : Call S) (r : Ratchet S) : Ratchet S := (exec r c).2

/-- What a sequence of calls returns. -/
def results : List (Call S) → Ratchet S → List Result
  | [],_ => []
  | call::calls,r => (exec r call).1::results calls (exec r call).2

/-- A session as one of the two constructors returns it. -/
inductive Begun : Ratchet S → Prop
  | alice {fresh : Except Failure S.Priv} {bundle : PreKeyBundle} {keyOrder idOrder : OneTimeKeys}
      {identity : Identity S} {info : Bytes} {r : Ratchet S}
      (h : aliceSession fresh bundle keyOrder idOrder identity info = .ok r) : Begun r
  | bob {keys : BobKeys S} {env : Envelope} {info msg : Bytes} {r : Ratchet S}
      (h : bobSession keys env info = .ok (r,msg)) : Begun r

theorem sampleReceiver_begun : Begun sampleReceiver := .bob sampleReceiver_session

end BaturWhatsApi.SessionCalls
