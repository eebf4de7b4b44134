import BaturWhatsApi.Encodability
import BaturWhatsApi.SessionSend

/-!
# Sending what cannot be encoded

`Send` of `session/session.go` takes the bytes of `MarshalDict` without asking for an error.
For a node that cannot be encoded these are no bytes at all, which are sealed and sent like any
others: the counter of the cipher moves, the transport gets a frame, and `Send` returns what
the transport returns.
-/
namespace BaturWhatsApi.UnencodableSends
open ByteStrings TokenDictionary NodeModel NodeEncoder NoiseCipher SessionSend Encodability Runs

variable {N : NoiseSuite}

/-- One call of `Send`, from its marshalling to its return. -/
def sendCall (dict : Dictionary) (s : Senders N) (i : ℕ) (n : Node) (how : Circumstance) :
    Senders N :=
  run (Senders.step dict) [.start i n,.lock i,.sealFrame i,.sendBinary i how] s

/-- The call has returned an error, the transport has got nothing and the counter has not moved. -/
structure Refused (s s' : Senders N) (i : ℕ) : Prop where
  returned : ∃ plain err, s'.calls i = .returned plain (some err)
  unsent : s'.conn.wire = s.conn.wire
  unmoved : s'.send.counter = s.send.counter

/-- An empty payload has been sealed and handed to the transport, and the call has returned what
the transport returned. -/
structure SentEmpty (s s' : Senders N) (i : ℕ) (how : Circumstance) : Prop where
  moved : s'.send.counter = s.send.counter+1
  handed : ∀ err conn, s.conn.sendBinary i (s.send.seal []).1 how = some (err,conn) →
    s'.calls i = .returned [] err ∧ s'.conn = conn

section
variable {dict : Dictionary} {s : Senders N} {i : ℕ} {n : Node} {how : Circumstance}
  (hidle : s.calls i = .idle) (hfree : s.writeMu = none)
include hidle hfree

/-- The state before `SendBinary`. -/
theorem sealed_state :
    run (Senders.step dict) [.start i n,.lock i,.sealFrame i] s =
      {s with
        send := (s.send.seal (marshalDict n dict)).2
        writeMu := some i
        calls := Function.update s.calls i
          (.sealed (marshalDict n dict) (s.send.seal (marshalDict n dict)).1)} := by
  have hstart : s.step dict (.start i n) = s.put i (.marshalled (marshalDict n dict)) := by
    simp only [Senders.step,hidle]
  have hlock : (s.put i (.marshalled (marshalDict n dict))).step dict (.lock i) =
      {s.put i (.locked (marshalDict n dict)) with writeMu := some i} := by
    simp only [Senders.step,Senders.put,Function.update_self,hfree,Function.update_idem]
  simp only [run,List.foldl_cons,List.foldl_nil,hstart,hlock]
  simp only [Senders.step,Senders.put,Function.update_self,Function.update_idem]

theorem sendCall_send : (sendCall dict s i n how).send = (s.send.seal (marshalDict n dict)).2 := by
  change (Senders.step dict (run (Senders.step dict) [.start i n,.lock i,.sealFrame i] s)
    (.sendBinary i how)).send = _
  rw [sealed_state hidle hfree]
  simp only [Senders.step,Function.update_self]
  split <;> rfl

theorem sendCall_handed {err : Option SendError} {conn : Conn}
    (h : s.conn.sendBinary i (s.send.seal (marshalDict n dict)).1 how = some (err,conn)) :
    (sendCall dict s i n how).calls i = .returned (marshalDict n dict) err ∧
      (sendCall dict s i n how).conn = conn := by
  have hcall : sendCall dict s i n how = Senders.step dict
      (run (Senders.step dict) [.start i n,.lock i,.sealFrame i] s) (.sendBinary i how) := rfl
  rw [hcall,sealed_state hidle hfree]
  simp only [Senders.step,Function.update_self,h,Senders.put,and_self]

theorem sendCall_empty {e : EncodeError} (he : encode n dict = .error e) :
    SentEmpty s (sendCall dict s i n how) i how := by
  have hempty : marshalDict n dict = [] := by simp only [marshalDict,he]
  constructor
  · rw [sendCall_send hidle hfree,Cipher.seal]
  · intro err conn h
    rw [← hempty] at h ⊢
    exact sendCall_handed hidle hfree h

/-- `Send` never refuses a node that cannot be encoded: what is asked of it holds for the other
nodes only, and in place of every such node an empty payload is sent. -/
theorem send_refuses_iff :
    (((∃ e, encode n dict = .error e) → Refused s (sendCall dict s i n how) i) ↔
      Node.Encodable dict n) ∧
    ((∃ e, encode n dict = .error e) → SentEmpty s (sendCall dict s i n how) i how) := by
  refine ⟨⟨fun h => ?_,fun hn herr => absurd hn ((encode_error_iff dict n).mp herr)⟩,
    fun ⟨e,he⟩ => sendCall_empty hidle hfree he⟩
  by_contra hn
  obtain ⟨e,he⟩ := (encode_error_iff dict n).mpr hn
  have hsent : SentEmpty s (sendCall dict s i n how) i how := sendCall_empty hidle hfree he
  have hmoved := hsent.moved
  rw [(h ⟨e,he⟩).unmoved] at hmoved
  exact absurd hmoved (by simp)

end

/-- An attribute of a type that the encoder does not have. -/
def fractional : Node := .mk (text "iq") [(text "n",.other "float64")] .nil

def opened : Senders symbolic := online (N := symbolic) .nil .pipe

/-- No error is returned, and the peer receives an empty payload. -/
theorem unencodable_sent :
    encode fractional noTokens = .error (.unsupported "float64") ∧
    (sendCall noTokens opened 0 fractional .fine).calls 0 = .returned [] none ∧
    (sendCall noTokens opened 0 fractional .fine).conn.wire.map Prod.snd =
      [((newCipher (N := symbolic) .nil).seal []).1] ∧
    (sendCall noTokens opened 0 fractional .fine).send.counter = 1 ∧
    ¬Refused opened (sendCall noTokens opened 0 fractional .fine) 0 := by
  have hcounter : (sendCall noTokens opened 0 fractional .fine).send.counter = 1 := by
    decide +kernel
  refine ⟨by rfl,by decide +kernel,by decide +kernel,hcounter,fun h => ?_⟩
  exact absurd (hcounter.symm.trans h.unmoved) (by decide)

theorem send_refuses_sample :
    Node.Encodable noTokens ping ∧
    ((∃ e, encode ping noTokens = .error e) →
      Refused opened (sendCall noTokens opened 0 ping .fine) 0) ∧
    ¬((∃ e, encode fractional noTokens = .error e) →
      Refused opened (sendCall noTokens opened 0 fractional .fine) 0) ∧
    SentEmpty opened (sendCall noTokens opened 0 fractional .fine) 0 .fine := by
  have hping : Node.Encodable noTokens ping := (encode_ok_iff noTokens ping).mp ⟨_,rfl⟩
  have hfractional : ¬Node.Encodable noTokens fractional :=
    (encode_error_iff noTokens fractional).mp ⟨_,rfl⟩
  refine ⟨hping,(send_refuses_iff (s := opened) rfl rfl).1.mpr hping,fun h => ?_,
    (send_refuses_iff (s := opened) rfl rfl).2 ⟨_,rfl⟩⟩
  exact hfractional ((send_refuses_iff (s := opened) rfl rfl).1.mp h)

end BaturWhatsApi.UnencodableSends
