import BaturWhatsApi.Encodability
import BaturWhatsApi.EnvelopeWire
import BaturWhatsApi.HistoryEvents
import BaturWhatsApi.SendText

/-!
# A text on its way through the server

`SendText` of `api/e2e.go` puts an envelope into a message node, `relayE2E` of
`internal/mockserver/mockserver.go` opens it and pushes the text to the addressed device, and
`toMessage` of `api/api.go` makes a message of what that device receives. Both nodes cross the
wire format. The calls of one client come one after another: each reads the stored session of
its target, hands over an envelope that arrives or does not, and stores the advanced session or
fails to.

The client keeps a session for every target. The server keeps one for every sender.
-/
namespace BaturWhatsApi.TextRelay
open ByteStrings CipherSuite RatchetModel SessionSetup SessionAgreement RatchetStorage SendText
open TokenDictionary NodeModel NodeEncoder NodeDecoder NodeRoundTrip Encodability EnvelopeWire
open HistoryEvents OrderedEntries StringCodec DecoderLocality

variable {S : Suite}

/-! ### The nodes -/

/-- What `SendText` hands to the connection. -/
def textNode (msgID target : Bytes) (env : Envelope) : Node :=
  .mk (text "message")
    [(text "id",.str msgID),(text "to",.str target),(text "type",.str (text "text"))]
    (.nodes [.mk (text "e2e") [] (.bytes (serialize env))])

def textAttrs (id account target : Bytes) : List (Bytes × Value) :=
  [(text "from",.str account),(text "id",.str id),(text "to",.str target),
   (text "type",.str (text "text"))]

/-- What the server pushes to the other device. -/
def pushedNode (id account target plain : Bytes) : Node :=
  .mk (text "message") (textAttrs id account target)
    (.nodes [.mk (text "plain") [] (.str plain)])

def bytesContent (n : Node) : Option Bytes :=
  match n.content with
  | .bytes b => some b
  | .str s => some s
  | _ => none

/-! ### The server -/

/-- The session of the sender and the text of the envelope. An init envelope replaces the
session; a session that fails to decrypt stays as the attempt has left it. -/
def relayEnvelope (keys : BobKeys S) (rt : Option (Ratchet S)) (env : Envelope) :
    Option (Ratchet S) × Option Bytes :=
  match rt with
  | none =>
      match bobSession keys env protocolInfoV1 with
      | .error _ => (none,none)
      | .ok (r,plain) => (some r,some plain)
  | some r =>
      if env.type = envInit then
        match bobSession keys env protocolInfoV1 with
        | .error _ => (some r,none)
        | .ok (r,plain) => (some r,some plain)
      else
        match decrypt env r with
        | (.error _,r) => (some r,none)
        | (.ok plain,r) => (some r,some plain)

/-- The server with one sender. -/
structure Server (S : Suite) where
  dict : Dictionary
  inflate : Bytes → Except String Bytes
  keys : BobKeys S
  account : Bytes
  online : Bytes → Bool

def relayE2E (V : Server S) (id : Bytes) (rt : Option (Ratchet S)) (n : Node) :
    Option (Ratchet S) × Option Node :=
  match n.childByTag (text "e2e") with
  | none => (rt,none)
  | some child =>
      match bytesContent child with
      | none => (rt,none)
      | some raw =>
          match parseEnvelope raw with
          | .error _ => (rt,none)
          | .ok env =>
              match relayEnvelope V.keys rt env with
              | (rt,none) => (rt,none)
              | (rt,some plain) =>
                  let target := n.mustStringAttr (text "to")
                  if V.online target then (rt,some (pushedNode id V.account target plain))
                  else (rt,none)

/-- One opened frame in `sessionLoop`; frames of other tags are not relayed. -/
def handleFrame (V : Server S) (id : Bytes) (rt : Option (Ratchet S)) (plain : Bytes) :
    Option (Ratchet S) × Option Node :=
  match decode V.inflate V.dict plain with
  | .error _ => (rt,none)
  | .ok n => if n.tag = text "message" then relayE2E V id rt n else (rt,none)

/-- What the handler of the other device gets for a pushed node. -/
def received (V : Server S) (now : ℤ) (pushed : Option Node) : Option Message :=
  match pushed with
  | none => none
  | some n =>
      match decode V.inflate V.dict (marshalDict n V.dict) with
      | .error _ => none
      | .ok n => some (toMessage n now)

/-! ### The client -/

structure Call (S : Suite) where
  request : Request S
  msgID : Bytes
  pushID : Bytes
  now : ℤ
  /-- The frame reaches the server. -/
  arrives : Bool
  /-- The call gets as far as storing the session, and the store takes it. -/
  persisted : Bool

structure Link (S : Suite) where
  stored : Bytes → Option (PersistedRatchet S)
  session : Option (Ratchet S)

def Link.empty : Link S := ⟨fun _ => none,none⟩

/-- The call up to its send. -/
def Call.prepared (F : Seeds S) (c : Call S) (σ : Link S) : Except SendError (Sending S) :=
  prepare F ((σ.stored c.request.target).map fun p => (0,p)) c.request

/-- The session of the sender and the pushed node behind a frame, if it arrives. -/
def Call.relayed (V : Server S) (c : Call S) (rt : Option (Ratchet S)) (env : Envelope) :
    Option (Ratchet S) × Option Node :=
  if c.arrives then
    handleFrame V c.pushID rt (marshalDict (textNode c.msgID c.request.target env) V.dict)
  else (rt,none)

def Link.step (F : Seeds S) (V : Server S) (σ : Link S) (c : Call S) :
    Link S × Option Message :=
  match c.prepared F σ with
  | .error _ => (σ,none)
  | .ok f =>
      let out := c.relayed V σ.session f.env
      ({stored := if c.persisted then
            Function.update σ.stored c.request.target (some (marshalState F f.ratchet))
          else σ.stored
        session := out.1},
       received V c.now out.2)

/-- What the other devices get, call by call. -/
def outputs (F : Seeds S) (V : Server S) : List (Call S) → Link S → List (Option Message)
  | [],_ => []
  | c::cs,σ => (σ.step F V c).2::outputs F V cs (σ.step F V c).1

/-! ### Both nodes cross the wire -/

theorem decode_marshal {inflate : Bytes → Except String Bytes} {d : Dictionary}
    (hd : d.WellFormed) {n : Node}
    (hn : n.Every (fun m => m.Mapped ∧ Node.PlainNull m) Value.Codable)
    (hok : Node.Encodable d n) : decode inflate d (marshalDict n d) = .ok (canonNode n) := by
  obtain ⟨w,hw⟩ := (encode_ok_iff d n).mpr hok
  have hmapped : n.Every Node.Mapped Value.Supported := hn.imp (fun m h => h.1) fun v h => by
    cases v with
    | jid j => trivial
    | _ => exact h
  have hread := writeNode_yields hd n hmapped hw
  rw [rereadNode_canon (hn.imp (fun m h => h.2) fun _ h => h)] at hread
  have hdone := hread [] []
  rw [List.nil_append,List.append_nil,List.length_nil,Nat.zero_add] at hdone
  rw [marshalDict,hw]
  exact (decode_raw d inflate).mpr hdone

/-- A text value comes back as one that reads the same. -/
theorem textContent_plain (t s : Bytes) : textContent (.mk t [] (plainText s)) = some s := by
  rw [plainText]
  split_ifs <;> rfl

theorem bytesContent_plain (t b : Bytes) : bytesContent (.mk t [] (plainText b)) = some b := by
  rw [plainText]
  split_ifs <;> rfl

theorem lookup_canonAttrs_none {key : Bytes} {as : List (Bytes × Value)}
    (h : key ∉ as.map Prod.fst) : (canonAttrs as).lookup key = none := by
  induction as with
  | nil => rfl
  | cons e as ih =>
      obtain ⟨k,v⟩ := e
      rw [List.map_cons,List.mem_cons,not_or] at h
      rw [canonAttrs]
      split_ifs
      · exact ih h.2
      · rw [List.lookup_cons,beq_false_of_ne h.1]
        exact ih h.2

/-- A text attribute is left out when it is empty. -/
theorem lookup_canonAttrs {key s : Bytes} {as : List (Bytes × Value)}
    (hkeys : (as.map Prod.fst).Nodup) (h : as.lookup key = some (.str s)) :
    (canonAttrs as).lookup key = if s = [] then none else some (plainText s) := by
  induction as with
  | nil => cases h
  | cons e as ih =>
      obtain ⟨k,v⟩ := e
      rw [List.map_cons,List.nodup_cons] at hkeys
      rw [List.lookup_cons] at h
      rw [canonAttrs]
      by_cases hk : key = k
      · subst hk
        rw [beq_self_eq_true] at h
        obtain rfl : v = .str s := Option.some.inj h
        cases s with
        | nil => exact lookup_canonAttrs_none hkeys.1
        | cons x s => simp [Value.dropped,canonValue]
      · rw [beq_false_of_ne hk] at h
        by_cases hv : v.dropped
        · rw [if_pos hv]
          exact ih hkeys.2 h
        · rw [if_neg hv,List.lookup_cons,beq_false_of_ne hk]
          exact ih hkeys.2 h

/-- An attribute that is written as text reads as that text. -/
theorem mustStringAttr_canon {t key s : Bytes} {as : List (Bytes × Value)} {c : Value}
    (hkeys : (as.map Prod.fst).Nodup) (h : as.lookup key = some (.str s)) :
    (Node.mk t (canonAttrs as) c).mustStringAttr key = s := by
  have hlookup := lookup_canonAttrs hkeys h
  rw [Node.mustStringAttr,Node.stringAttr,Node.attrs,hlookup]
  split_ifs with hs
  · exact hs.symm
  · rw [plainText]
    split_ifs <;> rfl

theorem mustStringAttr_canon_none {t key : Bytes} {as : List (Bytes × Value)} {c : Value}
    (h : key ∉ as.map Prod.fst) : (Node.mk t (canonAttrs as) c).mustStringAttr key = [] := by
  rw [Node.mustStringAttr,Node.stringAttr,Node.attrs,lookup_canonAttrs_none h]
  rfl

section
variable {V : Server S} (hd : V.dict.WellFormed)
include hd

theorem decode_textNode {msgID target : Bytes} {env : Envelope}
    (hok : Node.Encodable V.dict (textNode msgID target env)) :
    decode V.inflate V.dict (marshalDict (textNode msgID target env) V.dict) =
      .ok (canonNode (textNode msgID target env)) := by
  refine decode_marshal hd ?_ hok
  have hkeys : [text "id",text "to",text "type"].Pairwise (· < ·) := by decide
  have htag : text "message" ≠ nullTag := by decide
  have hchild : text "e2e" ≠ nullTag := by decide
  exact ⟨⟨ordered_iff_keys.mpr hkeys,fun h => absurd h htag⟩,
    ⟨trivial,trivial,trivial,trivial⟩,trivial,
    ⟨⟨ordered_iff_keys.mpr .nil,fun h => absurd h hchild⟩,trivial,trivial⟩,trivial⟩

theorem decode_pushedNode {id account target plain : Bytes}
    (hok : Node.Encodable V.dict (pushedNode id account target plain)) :
    decode V.inflate V.dict (marshalDict (pushedNode id account target plain) V.dict) =
      .ok (canonNode (pushedNode id account target plain)) := by
  refine decode_marshal hd ?_ hok
  have hkeys : [text "from",text "id",text "to",text "type"].Pairwise (· < ·) := by decide
  have htag : text "message" ≠ nullTag := by decide
  have hchild : text "plain" ≠ nullTag := by decide
  exact ⟨⟨ordered_iff_keys.mpr hkeys,fun h => absurd h htag⟩,
    ⟨trivial,trivial,trivial,trivial,trivial⟩,trivial,
    ⟨⟨ordered_iff_keys.mpr .nil,fun h => absurd h hchild⟩,trivial,trivial⟩,trivial⟩

/-- The server finds the envelope and the target. -/
theorem handleFrame_textNode {msgID target : Bytes} {env : Envelope}
    (hok : Node.Encodable V.dict (textNode msgID target env)) (hchecked : Checked env)
    (hinit : env.type = envInit ∨ NoInit env) (id : Bytes) (rt : Option (Ratchet S)) :
    handleFrame V id rt (marshalDict (textNode msgID target env) V.dict) =
      ((relayEnvelope V.keys rt env).1,
       (relayEnvelope V.keys rt env).2.bind fun plain =>
         if V.online target then some (pushedNode id V.account target plain) else none) := by
  have hlen : (serialize env).length < 2^64 := by
    obtain h | ⟨_,_,_,hchild⟩ := hok
    · exact absurd h (by decide)
    · obtain ⟨_,h | ⟨_,_,_,hbytes⟩,_⟩ := hchild
      · exact absurd h (by decide)
      · exact lt_trans hbytes (by decide)
  have hkeys : [text "id",text "to",text "type"].Nodup := by decide
  have hto : (canonNode (textNode msgID target env)).mustStringAttr (text "to") = target :=
    mustStringAttr_canon hkeys rfl
  have hchild : (canonNode (textNode msgID target env)).childByTag (text "e2e") =
      some (.mk (text "e2e") [] (plainText (serialize env))) := by
    rfl
  rw [handleFrame,decode_textNode hd hok]
  simp only
  rw [if_pos (show (canonNode (textNode msgID target env)).tag = text "message" from rfl),relayE2E,
    hchild]
  simp only [bytesContent_plain,parseEnvelope_serialize hchecked hinit hlen,hto]
  generalize relayEnvelope V.keys rt env = out
  obtain ⟨rt',plain⟩ := out
  cases plain with
  | none => rfl
  | some plain =>
      simp only [Option.bind_some]
      split_ifs <;> rfl

theorem received_pushedNode {id account target plain : Bytes}
    (hok : Node.Encodable V.dict (pushedNode id account target plain)) (now : ℤ) :
    received V now (some (pushedNode id account target plain)) =
      some {id := id,chat := account,sender := account,content := plain,type := text "text"
            stamp := now} := by
  have hkeys : [text "from",text "id",text "to",text "type"].Nodup := by decide
  have hnone : text "participant" ∉ [text "from",text "id",text "to",text "type"] := by decide
  have hattr : ∀ key s, (textAttrs id account target).lookup key = some (.str s) →
      (canonNode (pushedNode id account target plain)).mustStringAttr key = s :=
    fun key s h => mustStringAttr_canon hkeys h
  have hpart : (canonNode (pushedNode id account target plain)).mustStringAttr
      (text "participant") = [] := mustStringAttr_canon_none hnone
  have hplain : (canonNode (pushedNode id account target plain)).childByTag (text "plain") =
      some (.mk (text "plain") [] (plainText plain)) := rfl
  have hmedia : (mediaTags.findSome? fun tag =>
      ((canonNode (pushedNode id account target plain)).childByTag tag).map (mediaOf tag)) =
        none := rfl
  rw [received]
  simp only [decode_pushedNode hd hok,toMessage,hplain,hmedia,firstAttr,hpart,
    hattr (text "id") id rfl,hattr (text "from") account rfl,hattr (text "type") (text "text") rfl,
    textContent_plain,Option.getD_some,if_true]
  cases account <;> rfl

end

end BaturWhatsApi.TextRelay
