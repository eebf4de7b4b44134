import BaturWhatsApi.Encodability

/-!
# Writing back what was decoded

The decoder returns trees over nil, text, raw bytes, JIDs and node lists, with
attributes as map entries. Such a tree can be written again when every list and
string stays within the limits of the encoder, which are tighter than those of
the decoder. The bytes are then read as the same tree up to the normal form when
every JID is representable and every node tagged as the null node is blank.

Both conditions are exact. The normal form identifies text with equal raw bytes
and the empty node list with nil, and leaves out nil and empty attributes.
-/
namespace BaturWhatsApi.DecodedReencoding
open ByteStrings OrderedEntries TokenDictionary NodeModel NodeEncoder NodeDecoder DecoderLocality
open StringCodec Encodability NodeRoundTrip PositionalReaders PositionalReaders.Reader

/-- The dynamic types a decoder returns. -/
def Decoded : Value → Prop
  | .nil | .str _ | .bytes _ | .jid _ | .nodes _ => True
  | _ => False

section Image
variable {c : Bool → Read Value}
  (hc : ∀ b, Ensures (c b) (fun v => v.Every Node.Mapped Decoded))
include hc

theorem readAttr_ensures : Ensures (readAttr c) (fun e => e.2.Every Node.Mapped Decoded) := by
  refine .after fun key => ?_
  split
  · exact (hc true).bind fun v hv => .pure hv
  · exact .failAt _

theorem readFields_ensures (size : ℕ) :
    Ensures (readFields c size) (fun n => n.Every Node.Mapped Decoded) := by
  refine .after fun rawTag => ?_
  split
  · refine ((readAttr_ensures hc).times _).bind fun as has => ?_
    have hattrs : EveryAttr Node.Mapped Decoded (ofPairs as) :=
      everyAttr_iff.mpr fun e he => has e (mem_ofPairs he)
    exact .ite (fun _ => (hc true).bind fun v hv => .pure ⟨ofPairs_ordered as,hattrs,hv⟩)
      fun _ => .pure ⟨ofPairs_ordered as,hattrs,trivial⟩
  · exact .fail _

theorem readNodeBody_ensures : Ensures (readNodeBody c) (fun n => n.Every Node.Mapped Decoded) :=
  .after fun _ => .ite (fun _ => .failAt _) fun _ => .after fun size =>
    .ite (fun _ => .pure ⟨List.Pairwise.nil,trivial,trivial⟩) fun _ =>
      .ite (fun _ => .fail _) fun _ => readFields_ensures hc size

theorem readList_ensures : Ensures (readList c) (fun v => v.Every Node.Mapped Decoded) :=
  .after fun _ => .after fun size => ((readNodeBody_ensures hc).times size).bind fun _ hns =>
    .pure ⟨trivial,everyNode_iff.mpr hns⟩

theorem readContentBody_ensures (dict : Dictionary) (asString : Bool) :
    Ensures (readContentBody c dict asString) (fun v => v.Every Node.Mapped Decoded) := by
  have hblob : ∀ size, Ensures (bytesOrString size asString)
      (fun v => v.Every Node.Mapped Decoded) := fun size => .after fun raw =>
    .ite (fun _ => .pure trivial) fun _ => .pure trivial
  refine .after fun tag => .ite (fun _ => .pure trivial) fun _ =>
    .ite (fun _ => (readList_ensures hc).stepBack) fun _ =>
    .ite (fun _ => .after hblob) fun _ => .ite (fun _ => .after hblob) fun _ =>
    .ite (fun _ => .after hblob) fun _ => .ite (fun _ => .after fun i => ?_) fun _ =>
    .ite (fun _ => .after fun _ => .after fun _ => .after fun _ => .pure trivial) fun _ =>
    .ite (fun _ => .after fun _ => .after fun _ => .after fun _ => .after fun _ =>
      .pure trivial) fun _ =>
    .ite (fun _ => .after fun user => .after fun server => ?_) fun _ =>
    .ite (fun _ => .after fun _ => .after fun _ => .after fun user => ?_) fun _ =>
    .ite (fun _ => .after fun _ => .pure trivial) fun _ => ?_
  · split
    · exact .pure trivial
    · exact .failAt _
  · split
    · refine .ite (fun _ => .fail _) fun _ => ?_
      split <;> exact .pure trivial
    · exact .fail _
  · split <;> exact .pure trivial
  · split
    · exact .pure trivial
    · exact .failAt _

end Image

theorem readContent_ensures (dict : Dictionary) (asString : Bool) :
    Ensures (readContent dict asString) (fun v => v.Every Node.Mapped Decoded) := by
  have hall : ∀ fuel b, Ensures (contentUpTo dict fuel b)
      (fun v => v.Every Node.Mapped Decoded) := by
    intro fuel
    induction fuel with
    | zero => exact fun b => .fail _
    | succ fuel ih => exact fun b => readContentBody_ensures ih dict b
  exact fun d i => hall (d.length+1) asString d i

theorem decode_every {inflate : Bytes → Except String Bytes} {dict : Dictionary} {c : Bytes}
    {n : Node} (h : decode inflate dict (streamFlagRaw::c) = .ok n) :
    n.Every Node.Mapped Decoded :=
  readNodeBody_ensures (readContent_ensures dict) _ _ _ _ ((decode_raw dict inflate).mp h)

mutual
/-- Equal payloads, empty lists and left-out attributes are identified. -/
def normalNode : Node → Node
  | .mk t as c => .mk t (normalAttrs as) (normalValue c)
def normalValue : Value → Value
  | .bytes b => .str b
  | .nodes ns => nodeList (normalNodes ns)
  | .node n => .node (normalNode n)
  | v => v
def normalNodes : List Node → List Node
  | [] => []
  | n::ns => normalNode n::normalNodes ns
def normalAttrs : List (Bytes × Value) → List (Bytes × Value)
  | [] => []
  | (k,v)::as =>
      if (normalValue v).dropped then normalAttrs as else (k,normalValue v)::normalAttrs as
end

mutual
/-- Every JID is representable, and a null node has nothing to lose. -/
def Node.Faithful : Node → Prop
  | .mk t as c =>
      if t = nullTag then normalAttrs as = [] ∧ normalValue c = .nil
      else FaithfulAttrs as ∧ Value.Faithful c
def Value.Faithful : Value → Prop
  | .jid j => WireJID j
  | .nodes ns => FaithfulNodes ns
  | _ => True
def FaithfulNodes : List Node → Prop
  | [] => True
  | n::ns => Node.Faithful n ∧ FaithfulNodes ns
def FaithfulAttrs : List (Bytes × Value) → Prop
  | [] => True
  | (_,v)::as => Value.Faithful v ∧ FaithfulAttrs as
end

theorem normalValue_plainText (s : Bytes) : normalValue (plainText s) = .str s := by
  unfold plainText
  split <;> simp [normalValue]

theorem normalValue_nodeList (ns : List Node) :
    normalValue (nodeList ns) = nodeList (normalNodes ns) := by
  cases ns with
  | nil => simp [nodeList,normalNodes,normalValue]
  | cons n ns => rw [nodeList,normalValue]

theorem nodeList_inj {ms ns : List Node} : nodeList ms = nodeList ns ↔ ms = ns := by
  cases ms <;> cases ns <;> simp [nodeList]

theorem nodeList_dropped {ns : List Node} : (nodeList ns).dropped = true ↔ ns = [] := by
  cases ns <;> simp [nodeList,Value.dropped]

theorem normalNodes_eq_nil {ns : List Node} : normalNodes ns = [] ↔ ns = [] := by
  cases ns <;> simp [normalNodes]

theorem rereadNodes_eq_nil {ns ms : List Node} (h : rereadNodes ns = some ms) :
    ms = [] ↔ ns = [] := by
  cases ns with
  | nil => rw [rereadNodes] at h; cases h; simp
  | cons n ns =>
      rw [rereadNodes] at h
      obtain ⟨m,-,h⟩ := Option.bind_eq_some_iff.mp h
      obtain ⟨ms',-,rfl⟩ := Option.map_eq_some_iff.mp h
      simp

/-- Rereading does not change whether a value is left out as an attribute. -/
theorem reread_dropped {v v' : Value} (hv : Decoded v) (h : rereadValue v = some v') :
    (normalValue v').dropped = (normalValue v).dropped := by
  cases v with
  | nil => rw [rereadValue] at h; cases h; rfl
  | str s => rw [rereadValue] at h; cases h; rw [normalValue_plainText]; simp [normalValue]
  | bytes b => rw [rereadValue] at h; cases h; rw [normalValue_plainText]; simp [normalValue]
  | jid j =>
      rw [rereadValue] at h
      obtain ⟨j',-,rfl⟩ := Option.map_eq_some_iff.mp h
      simp [normalValue,Value.dropped]
  | nodes ns =>
      rw [rereadValue] at h
      obtain ⟨ms,hms,rfl⟩ := Option.map_eq_some_iff.mp h
      rw [normalValue_nodeList,normalValue,Bool.eq_iff_iff,nodeList_dropped,nodeList_dropped,
        normalNodes_eq_nil,normalNodes_eq_nil,rereadNodes_eq_nil hms]
  | _ => exact hv.elim

theorem faithful_of_dropped {v : Value} (h : (normalValue v).dropped = true) :
    Value.Faithful v := by
  cases v with
  | jid j => simp [normalValue,Value.dropped] at h
  | nodes ns =>
      rw [normalValue,nodeList_dropped,normalNodes_eq_nil] at h
      subst h
      simp [Value.Faithful,FaithfulNodes]
  | _ => simp [Value.Faithful]

theorem dropped_normal {v : Value} (h : v.dropped = true) : (normalValue v).dropped = true := by
  cases v with
  | nil => simpa [normalValue] using h
  | str s => simpa [normalValue] using h
  | _ => cases h

mutual
theorem rereadNode_normal_iff : ∀ {n : Node}, n.Every Node.Mapped Decoded →
    ((∃ n', rereadNode n = some n' ∧ normalNode n' = normalNode n) ↔ Node.Faithful n)
  | .mk t as c,⟨_,has,hc⟩ => by
      rw [rereadNode,Node.Faithful,normalNode]
      split_ifs with ht
      · subst ht
        simp only [Option.some.injEq,exists_eq_left',normalNode,normalAttrs,normalValue,
          Node.mk.injEq,true_and]
        exact ⟨fun h => ⟨h.1.symm,h.2.symm⟩,fun h => ⟨h.1.symm,h.2.symm⟩⟩
      · rw [← rereadAttrs_normal_iff has,← rereadValue_normal_iff hc]
        constructor
        · rintro ⟨n',h,hn⟩
          obtain ⟨as',ha,h⟩ := Option.bind_eq_some_iff.mp h
          obtain ⟨c',hc',rfl⟩ := Option.map_eq_some_iff.mp h
          rw [normalNode] at hn
          injection hn with _ hna hnc
          exact ⟨⟨as',ha,hna⟩,c',hc',hnc⟩
        · rintro ⟨⟨as',ha,hna⟩,c',hc',hnc⟩
          refine ⟨.mk t as' c',by rw [ha,hc']; rfl,?_⟩
          rw [normalNode,hna,hnc]
theorem rereadValue_normal_iff : ∀ {v : Value}, v.Every Node.Mapped Decoded →
    ((∃ v', rereadValue v = some v' ∧ normalValue v' = normalValue v) ↔ Value.Faithful v)
  | .nil,_ => by simp [rereadValue,Value.Faithful]
  | .str s,_ => by
      simp only [rereadValue,Option.some.injEq,exists_eq_left',normalValue_plainText,Value.Faithful]
      simp [normalValue]
  | .bytes b,_ => by
      simp only [rereadValue,Option.some.injEq,exists_eq_left',normalValue_plainText,Value.Faithful]
      simp [normalValue]
  | .jid j,_ => by
      rw [Value.Faithful,← rereadJID_eq_iff,rereadValue]
      constructor
      · rintro ⟨v',h,hn⟩
        obtain ⟨j',hj,rfl⟩ := Option.map_eq_some_iff.mp h
        simp only [normalValue,Value.jid.injEq] at hn
        rw [hj,hn]
      · intro h
        exact ⟨.jid j,by rw [h]; rfl,rfl⟩
  | .nodes ns,⟨_,hns⟩ => by
      rw [Value.Faithful,← rereadNodes_normal_iff hns,rereadValue]
      constructor
      · rintro ⟨v',h,hn⟩
        obtain ⟨ms,hm,rfl⟩ := Option.map_eq_some_iff.mp h
        rw [normalValue_nodeList,normalValue,nodeList_inj] at hn
        exact ⟨ms,hm,hn⟩
      · rintro ⟨ms,hm,hn⟩
        exact ⟨nodeList ms,by rw [hm]; rfl,by rw [normalValue_nodeList,normalValue,hn]⟩
  | .node _,⟨h,_⟩ => h.elim
  | .bool _,h | .int _,h | .int32 _,h | .int64 _,h | .uint _,h | .uint32 _,h | .uint64 _,h
  | .other _,h => h.elim
theorem rereadNodes_normal_iff : ∀ {ns : List Node}, EveryNode Node.Mapped Decoded ns →
    ((∃ ms, rereadNodes ns = some ms ∧ normalNodes ms = normalNodes ns) ↔ FaithfulNodes ns)
  | [],_ => by simp [rereadNodes,FaithfulNodes]
  | n::ns,⟨hn,hns⟩ => by
      rw [FaithfulNodes,← rereadNode_normal_iff hn,← rereadNodes_normal_iff hns,rereadNodes,
        normalNodes]
      constructor
      · rintro ⟨ms,h,heq⟩
        obtain ⟨n',hn',h⟩ := Option.bind_eq_some_iff.mp h
        obtain ⟨ms',hms,rfl⟩ := Option.map_eq_some_iff.mp h
        rw [normalNodes] at heq
        injection heq with h₁ h₂
        exact ⟨⟨n',hn',h₁⟩,ms',hms,h₂⟩
      · rintro ⟨⟨n',hn',h₁⟩,ms',hms,h₂⟩
        exact ⟨n'::ms',by rw [hn',hms]; rfl,by rw [normalNodes,h₁,h₂]⟩
theorem rereadAttrs_normal_iff : ∀ {as : List (Bytes × Value)}, EveryAttr Node.Mapped Decoded as →
    ((∃ as', rereadAttrs as = some as' ∧ normalAttrs as' = normalAttrs as) ↔ FaithfulAttrs as)
  | [],_ => by simp [rereadAttrs,FaithfulAttrs]
  | (k,v)::as,⟨hv,has⟩ => by
      rw [FaithfulAttrs,← rereadAttrs_normal_iff has,rereadAttrs,normalAttrs]
      by_cases hd : v.dropped = true
      · rw [if_pos hd,if_pos (dropped_normal hd)]
        exact (and_iff_right (faithful_of_dropped (dropped_normal hd))).symm
      rw [if_neg hd,← rereadValue_normal_iff hv]
      constructor
      · rintro ⟨bs,h,heq⟩
        obtain ⟨v',hv',h⟩ := Option.bind_eq_some_iff.mp h
        obtain ⟨as',has',rfl⟩ := Option.map_eq_some_iff.mp h
        have hb := reread_dropped hv.here hv'
        rw [normalAttrs,hb] at heq
        split_ifs at heq with hblank
        · exact ⟨(rereadValue_normal_iff hv).mpr (faithful_of_dropped hblank),as',has',heq⟩
        · injection heq with h₁ h₂
          exact ⟨⟨v',hv',congrArg Prod.snd h₁⟩,as',has',h₂⟩
      · rintro ⟨⟨v',hv',hn⟩,as',has',hna⟩
        exact ⟨(k,v')::as',by rw [hv',has']; rfl,by rw [normalAttrs,hn,hna]⟩
end

/-- A decoded tree is written back and read again as an equal tree up to the
normal form exactly when it fits the encoder and is faithful. -/
theorem decode_reencode_iff (inflate : Bytes → Except String Bytes) (d : Dictionary)
    (hd : d.WellFormed) (c : Bytes) (n : Node)
    (h : decode inflate d (streamFlagRaw::c) = .ok n) :
    (∃ w n', encode n d = .ok w ∧ decode inflate d (streamFlagRaw::w) = .ok n' ∧
      normalNode n' = normalNode n) ↔ Node.Encodable d n ∧ Node.Faithful n := by
  have hn := decode_every h
  have hsup : n.Every Node.Mapped Value.Supported := hn.imp (fun _ h => h) fun v hv => by
    cases v with
    | node n => exact hv.elim
    | other t => exact hv.elim
    | _ => trivial
  have hread : ∀ {w}, encode n d = .ok w → ∀ n',
      decode inflate d (streamFlagRaw::w) = .ok n' ↔ rereadNode n = some n' := by
    intro w hw n'
    rw [decode_raw]
    exact (writeNode_yields hd n hsup hw).ok_iff
  rw [← writeNode_ok_iff,← rereadNode_normal_iff hn]
  constructor
  · rintro ⟨w,n',hw,hdec,heq⟩
    exact ⟨⟨w,hw⟩,n',(hread hw n').mp hdec,heq⟩
  · rintro ⟨⟨w,hw⟩,n',hr,heq⟩
    exact ⟨w,n',hw,(hread hw n').mpr hr,heq⟩

theorem messageBlock_decoded (inflate : Bytes → Except String Bytes) :
    decode inflate DefaultTokens.default (streamFlagRaw::messageBlock) = .ok messageNode := rfl

theorem decode_reencode_message :
    decode (fun _ => .error "") DefaultTokens.default (streamFlagRaw::messageBlock) =
      .ok messageNode ∧
    ∃ w n', encode messageNode DefaultTokens.default = .ok w ∧
      decode (fun _ => .error "") DefaultTokens.default (streamFlagRaw::w) = .ok n' ∧
      normalNode n' = normalNode messageNode := by
  refine ⟨messageBlock_decoded _,(decode_reencode_iff (fun _ => .error "") DefaultTokens.default
    DefaultTokens.default_wellFormed messageBlock messageNode (messageBlock_decoded _)).mpr ?_⟩
  have hshort : ∀ s ∈ [text "message",text "from",text "628111",serverUser,text "id",text "A1",
      text "type",text "text",text "enc",text "hi!"], Writable DefaultTokens.default s := by
    intro s hs
    refine writable_of_short (lt_of_le_of_lt (b := 14) ?_ (by decide))
    revert s
    decide
  constructor
  · simp only [List.forall_mem_cons] at hshort
    simp only [messageNode,Node.Encodable,EncodableAttrs,Value.Encodable,EncodableNodes,hshort]
    decide
  · have hmessage : text "message" ≠ nullTag := by decide
    have henc : text "enc" ≠ nullTag := by decide
    simp only [messageNode,Node.Faithful,FaithfulAttrs,Value.Faithful,FaithfulNodes,WireJID,
      if_neg hmessage,if_neg henc]
    decide

/-- A message whose content is a JID with the given agent byte. -/
def agentMessage (agent : UInt8) : Node :=
  .mk (text "message") []
    (.jid {user := text "1",rawAgent := agent,device := 1,server := serverUser})

/-- An agent byte outside the four domains is read, but the encoder writes the
byte of the server in its place. -/
theorem decode_reencode_agent_lost :
    decode (fun _ => .error "") DefaultTokens.default
      [streamFlagRaw,list8,2,19,adJID,5,1,85] = .ok (agentMessage 5) ∧
    encode (agentMessage 5) DefaultTokens.default = .ok [list8,2,19,adJID,0,1,85] ∧
    decode (fun _ => .error "") DefaultTokens.default
      [streamFlagRaw,list8,2,19,adJID,0,1,85] = .ok (agentMessage 0) ∧
    normalNode (agentMessage 0) ≠ normalNode (agentMessage 5) := by
  refine ⟨rfl,by decide +kernel,rfl,?_⟩
  simp [agentMessage,normalNode,normalValue]

end BaturWhatsApi.DecodedReencoding
