import BaturWhatsApi.StringCodec

/-!
# Encoding a node and reading it back

`reread` gives, for every tree the encoder can write, the tree its bytes are read
as, or nothing when they are refused. The bytes of each part are read in place,
so the theorem is one structural induction over nodes, values, node lists and
attribute entries, with the list header carrying the attribute count and the
presence of a content.

On trees whose JIDs are representable and whose null nodes are empty, rereading
is the canonical form: dropped attributes, decimal text for numbers, and one
choice between text and raw bytes. The canonical form drops an attribute by the
value it had before it was replaced, as the encoder does; an attribute holding an
empty node list therefore stays, with the value nil.
-/
namespace BaturWhatsApi.NodeRoundTrip
open ByteStrings OrderedEntries TokenDictionary NodeModel NodeEncoder NodeDecoder DecoderLocality
open StringCodec PositionalReaders PositionalReaders.Reader

/-- The JID read back from the form in which the encoder writes it. -/
def rereadJID (j : JID) : Option JID :=
  if j.isADJIDEncodable then
    some (newADJID j.user j.actualAgent (UInt8.ofNat (j.device.toNat &&& 0xFF)))
  else if j.server = serverMSGram then
    some {user := j.user,device := j.device,server := j.server}
  else if j.server = serverInterop then
    some {user := j.user,device := j.device,integrator := j.integrator,server := j.server}
  else if j.server = [] then none
  else some (newJID j.user j.server)

/-- The fields the form of its server has room for. -/
def WireJID (j : JID) : Prop :=
  j.server ≠ [] ∧
  if j.onDeviceServer then j.device ≤ 255 ∧ j.rawAgent = 0 ∧ j.integrator = 0
  else if j.server = serverMSGram then j.rawAgent = 0 ∧ j.integrator = 0
  else if j.server = serverInterop then j.rawAgent = 0
  else j.device = 0 ∧ j.rawAgent = 0 ∧ j.integrator = 0

theorem newADJID_actualAgent {j : JID} (h : j.onDeviceServer = true) (b : UInt8) :
    newADJID j.user j.actualAgent b =
      {user := j.user,device := b.toUInt16,server := j.server} := by
  obtain ⟨u,a,dev,int,srv⟩ := j
  simp only [JID.onDeviceServer,Bool.or_eq_true,decide_eq_true_eq] at h
  rcases h with ((rfl | rfl) | rfl) | rfl
  all_goals rfl

theorem device_byte (dev : UInt16) :
    dev = (UInt8.ofNat (dev.toNat &&& 0xFF)).toUInt16 ↔ dev ≤ 255 := by
  have hand : dev.toNat &&& 0xFF = dev.toNat % 256 := Nat.and_two_pow_sub_one_eq_mod _ 8
  rw [← UInt16.toNat_inj,hand,UInt8.toNat_toUInt16,UInt8.toNat_ofNat',UInt16.le_iff_toNat_le,
    show (255 : UInt16).toNat = 255 from rfl]
  omega

theorem onDeviceServer_cases {j : JID} (h : j.onDeviceServer = true) :
    j.server ≠ [] ∧ j.server ≠ serverMSGram ∧ j.server ≠ serverInterop := by
  simp only [JID.onDeviceServer,Bool.or_eq_true,decide_eq_true_eq] at h
  rcases h with ((h | h) | h) | h
  all_goals
    rw [h]
    decide

/-- A JID without device and agent on one of the device servers is written as a pair. -/
theorem rereadJID_device {j : JID} (h : j.onDeviceServer = true) :
    rereadJID j = some {user := j.user,device := (UInt8.ofNat (j.device.toNat &&& 0xFF)).toUInt16,
                        server := j.server} := by
  obtain ⟨hne,hm,hi⟩ := onDeviceServer_cases h
  unfold rereadJID
  by_cases hd : j.isADJIDEncodable = true
  · rw [if_pos hd,newADJID_actualAgent h]
  · rw [if_neg hd,if_neg hm,if_neg hi,if_neg hne]
    have hzero : j.device = 0 := by
      simp only [JID.isADJIDEncodable,h,Bool.true_and,Bool.or_eq_true,decide_eq_true_eq,
        not_or] at hd
      exact UInt16.le_zero_iff.mp (UInt16.not_lt.mp hd.1)
    rw [hzero]
    rfl

theorem rereadJID_eq_iff (j : JID) : rereadJID j = some j ↔ WireJID j := by
  obtain ⟨u,a,dev,int,srv⟩ := j
  by_cases hs : JID.onDeviceServer ⟨u,a,dev,int,srv⟩ = true
  · have hne := (onDeviceServer_cases hs).1
    simp only [rereadJID_device hs,WireJID,hs,if_true,Option.some.injEq,JID.mk.injEq,true_and,
      and_true]
    rw [eq_comm (a := (0 : UInt8)),eq_comm (a := (0 : UInt16)),eq_comm (b := dev),device_byte]
    exact ⟨fun ⟨ha,hd,hi⟩ => ⟨hne,hd,ha,hi⟩,fun ⟨_,hd,ha,hi⟩ => ⟨ha,hd,hi⟩⟩
  · have hns : JID.isADJIDEncodable ⟨u,a,dev,int,srv⟩ = false := by
      simp [JID.isADJIDEncodable,Bool.eq_false_iff.mpr hs]
    simp only [rereadJID,WireJID,hns,if_neg hs,Bool.false_eq_true,if_false]
    split_ifs with hm hi he
    · have hne : srv ≠ [] := by rw [hm]; decide
      simp only [Option.some.injEq,JID.mk.injEq,true_and,and_true,eq_comm (a := (0 : UInt8)),
        eq_comm (a := (0 : UInt16))]
      exact ⟨fun h => ⟨hne,h⟩,fun h => h.2⟩
    · have hne : srv ≠ [] := by rw [hi]; decide
      simp only [Option.some.injEq,JID.mk.injEq,true_and,and_true,eq_comm (a := (0 : UInt8))]
      exact ⟨fun h => ⟨hne,h⟩,fun h => h.2⟩
    · exact ⟨fun h => (nomatch h),fun h => (h.1 he).elim⟩
    · simp only [newJID,Option.some.injEq,JID.mk.injEq,true_and,and_true,
        eq_comm (a := (0 : UInt8)),eq_comm (a := (0 : UInt16))]
      exact ⟨fun ⟨ha,hd,hi⟩ => ⟨he,hd,ha,hi⟩,fun ⟨_,hd,ha,hi⟩ => ⟨ha,hd,hi⟩⟩

section Wire
variable {d : Dictionary} (hd : d.WellFormed)
include hd

theorem string_reads_like {s w : Bytes} (hw : writeString d s = .ok w) :
    Reads (readStringLike (readContent d)) w (.str s) :=
  writeString_reads_like (addressable_of_wellFormed hd (writeString_ok_iff.mp ⟨w,hw⟩)) hw

theorem string_reads_plain {s w : Bytes} (hw : writeString d s = .ok w) :
    Reads (readContent d true) w (plainText s) :=
  writeString_reads_plain (addressable_of_wellFormed hd (writeString_ok_iff.mp ⟨w,hw⟩)) hw

omit hd in
theorem uint16_reads (n : UInt16) : Reads (readInt 2) (writeUint16 n) n.toNat := by
  have hr := readInt_reads (writeUint16 n)
  rwa [writeUint16,bigEndian_two n.toNat_lt] at hr

omit hd in
theorem listEmpty_reads (asString : Bool) : Reads (readContent d asString) [listEmpty] .nil := by
  rw [readContent_eq]
  exact (readByte_reads listEmpty).bind_nil (Reads.pure _)

/-- The empty user of a pair is written as the empty list and read as no string. -/
theorem pairUser_reads {u x : Bytes}
    (hx : (if u = [] then .ok [listEmpty] else writeString d u) = Except.ok x) :
    ∃ v, Reads (readStringLike (readContent d)) x v ∧ (v = .str u ∨ v = .nil ∧ u = []) := by
  split_ifs at hx with hu
  · cases hx
    exact ⟨.nil,(listEmpty_reads false).bind_nil (Reads.pure _),.inr ⟨rfl,hu⟩⟩
  · exact ⟨.str u,string_reads_like hd hx,.inl rfl⟩

theorem readJIDPair_yields {u srv x y : Bytes}
    (hx : (if u = [] then .ok [listEmpty] else writeString d u) = Except.ok x)
    (hy : writeString d srv = .ok y) :
    Yields (readJIDPair (readContent d)) (x++y)
      (if srv = [] then none else some (.jid (newJID u srv))) := by
  obtain ⟨v,hv,hcase⟩ := pairUser_reads hd hx
  have hs := string_reads_like hd hy
  split_ifs with h
  · refine hv.rejects (hs.rejects_nil ?_)
    simp only [if_pos h]
    exact Rejects.fail _
  · refine hv.bind (hs.bind_nil ?_)
    simp only [if_neg h]
    rcases hcase with rfl | ⟨rfl,rfl⟩
    · exact Reads.pure _
    · exact Reads.pure _

theorem writeJID_yields {j : JID} {w : Bytes} (hw : writeJID d j = .ok w) (asString : Bool) :
    Yields (readContent d asString) w ((rereadJID j).map .jid) := by
  unfold writeJID at hw
  unfold rereadJID
  rw [readContent_eq]
  by_cases h₁ : j.isADJIDEncodable = true
  · rw [if_pos h₁] at hw ⊢
    obtain ⟨x,hx,rfl⟩ := Write.ok_then.mp hw
    have hu := string_reads_like hd hx
    exact (readByte_reads adJID).yields ((readByte_reads _).yields ((readByte_reads _).yields
      (hu.bind_nil (Reads.pure _))))
  rw [if_neg h₁] at hw ⊢
  by_cases h₂ : j.server = serverMSGram
  · rw [if_pos h₂] at hw ⊢
    obtain ⟨w₁,hw₁,rfl⟩ := Write.ok_then.mp hw
    obtain ⟨x,w₂,hx,hw₂,rfl⟩ := Write.then_eq_ok.mp hw₁
    obtain ⟨y,hy,rfl⟩ := Write.ok_then.mp hw₂
    have hr : Reads (readFBJID (readContent d)) _ _ := (string_reads_like hd hx).bind
      ((uint16_reads j.device).bind ((string_reads_like hd hy).bind_nil (Reads.pure _)))
    simp only [UInt16.ofNat_toNat,toStringOrBytes] at hr
    exact (readByte_reads fbJID).yields hr
  rw [if_neg h₂] at hw ⊢
  by_cases h₃ : j.server = serverInterop
  · rw [if_pos h₃] at hw ⊢
    obtain ⟨w₁,hw₁,rfl⟩ := Write.ok_then.mp hw
    obtain ⟨x,w₂,hx,hw₂,rfl⟩ := Write.then_eq_ok.mp hw₁
    obtain ⟨w₃,hw₃,rfl⟩ := Write.ok_then.mp hw₂
    obtain ⟨y,hy,rfl⟩ := Write.ok_then.mp hw₃
    have hr : Reads (readInteropJID (readContent d)) _ _ := (string_reads_like hd hx).bind
      ((uint16_reads j.device).bind ((uint16_reads j.integrator).bind
        ((string_reads_like hd hy).bind_nil (Reads.pure _))))
    simp only [UInt16.ofNat_toNat,toStringOrBytes] at hr
    exact (readByte_reads interopJID).yields hr
  rw [if_neg h₃] at hw ⊢
  obtain ⟨w₁,hw₁,rfl⟩ := Write.ok_then.mp hw
  obtain ⟨x,y,hx,hy,rfl⟩ := Write.then_eq_ok.mp hw₁
  have hr := readJIDPair_yields hd hx hy
  rw [apply_ite (Option.map Value.jid)]
  exact (readByte_reads jidPair).yields hr

end Wire

/-- An empty node list is written as the empty list and read as nil. -/
def nodeList : List Node → Value
  | [] => .nil
  | n::ns => .nodes (n::ns)

mutual
/-- The tree read back from the bytes of a tree, if they are accepted. -/
def rereadNode : Node → Option Node
  | .mk t as c =>
      if t = nullTag then some (.mk nullTag [] .nil)
      else (rereadAttrs as).bind fun as' => (rereadValue c).map fun c' => .mk t as' c'
def rereadValue : Value → Option Value
  | .nil => some .nil
  | .str s => some (plainText s)
  | .bytes b => some (plainText b)
  | .jid j => (rereadJID j).map .jid
  | .nodes ns => (rereadNodes ns).map nodeList
  | v => v.scalar.map .str
def rereadNodes : List Node → Option (List Node)
  | [] => some []
  | n::ns => (rereadNode n).bind fun n' => (rereadNodes ns).map fun ns' => n'::ns'
def rereadAttrs : List (Bytes × Value) → Option (List (Bytes × Value))
  | [] => some []
  | (k,v)::as =>
      if v.dropped then rereadAttrs as
      else (rereadValue v).bind fun v' => (rereadAttrs as).map fun as' => (k,v')::as'
end

theorem rereadAttrs_keys {as as' : List (Bytes × Value)} (h : rereadAttrs as = some as') :
    (as'.map Prod.fst).Sublist (as.map Prod.fst) := by
  induction as generalizing as' with
  | nil =>
      rw [rereadAttrs] at h
      cases h
      exact List.Sublist.slnil
  | cons e as ih =>
      obtain ⟨k,v⟩ := e
      rw [rereadAttrs] at h
      split_ifs at h
      · exact (ih h).cons k
      · obtain ⟨v',-,h⟩ := Option.bind_eq_some_iff.mp h
        obtain ⟨as₁,h₁,rfl⟩ := Option.map_eq_some_iff.mp h
        exact (ih h₁).cons_cons k

theorem rereadAttrs_ordered {as as' : List (Bytes × Value)} (ho : Ordered as)
    (h : rereadAttrs as = some as') : Ordered as' :=
  ordered_iff_keys.mpr ((ordered_iff_keys.mp ho).sublist (rereadAttrs_keys h))

theorem countableAttrs_keys (d : Dictionary) (as : List (Bytes × Value)) :
    ((countableAttrs d as).map Prod.fst).Sublist (as.map Prod.fst) := by
  induction as with
  | nil => rw [countableAttrs]; exact List.Sublist.slnil
  | cons e as ih =>
      obtain ⟨k,v⟩ := e
      rw [countableAttrs]
      split_ifs
      · exact ih.cons k
      · exact ih.cons_cons k

theorem countableAttrs_sorted (d : Dictionary) {as : List (Bytes × Value)} (ho : Ordered as) :
    sortByKey (countableAttrs d as) = countableAttrs d as :=
  sortByKey_of_ordered
    (ordered_iff_keys.mpr ((ordered_iff_keys.mp ho).sublist (countableAttrs_keys d as)))

/-- The two header forms of a list that is not empty. -/
theorem writeListStart_header {size : ℕ} {w : Bytes} (h : writeListStart size = .ok w)
    (hpos : 0 < size) : ∃ tag rest, w = tag::rest ∧ (tag = list8 ∨ tag = list16) ∧
      Reads (listSize tag) rest size := by
  unfold writeListStart at h
  split_ifs at h with h₀ h₁ h₂
  · omega
  · cases h
    have hn := readInt_reads [UInt8.ofNat size]
    rw [bigEndian_one h₁] at hn
    exact ⟨list8,_,rfl,.inl rfl,hn⟩
  · cases h
    have hn := readInt_reads [UInt8.ofNat (size >>> 8),UInt8.ofNat size]
    rw [bigEndian_two (by omega)] at hn
    exact ⟨list16,_,rfl,.inr rfl,hn⟩

theorem list_tag_ne {tag : UInt8} (h : tag = list8 ∨ tag = list16) : tag ≠ listEmpty := by
  rcases h with rfl | rfl <;> decide

section Tree
variable {d : Dictionary}

theorem node_yields {size : ℕ} {h w : Bytes} {o : Option Node} (hh : writeListStart size = .ok h)
    (hpos : 0 < size) (hw : Yields (readFields (readContent d) size) w o) :
    Yields (readNode d) (h++w) o := by
  obtain ⟨tag,rest,rfl,htag,hsize⟩ := writeListStart_header hh hpos
  refine (readByte_reads tag).yields (v := rest++w) ?_
  rw [if_neg (list_tag_ne htag)]
  refine hsize.yields ?_
  rwa [if_neg (fun h => by omega),if_neg (by omega)]

theorem nodes_yields {size : ℕ} {h w : Bytes} {o : Option (List Node)} {asString : Bool}
    (hh : writeListStart size = .ok h) (hpos : 0 < size)
    (hw : Yields (times size (readNode d)) w o) :
    Yields (readContent d asString) (h++w) (o.map .nodes) := by
  obtain ⟨tag,rest,rfl,htag,hsize⟩ := writeListStart_header hh hpos
  have hlist : Yields (readList (readContent d)) (tag::(rest++w)) (o.map .nodes) :=
    (readByte_reads tag).yields (hsize.yields (hw.map Value.nodes))
  rw [readContent_eq]
  refine (readByte_reads tag).yields_stepBack ?_ hlist
  rw [if_neg (list_tag_ne htag),if_pos htag]

/-- The header size determines the number of entries and the presence of a content. -/
theorem fields_yields {t wt wa wc : Bytes} {k : ℕ} {c : Value} {oa : Option (List (Bytes × Value))}
    {oc : Option Value} (ht : Reads (readStringLike (readContent d)) wt (.str t))
    (ha : Yields (times k (readAttr (readContent d))) wa oa)
    (hord : ∀ as, oa = some as → Ordered as)
    (hc : if c.isNil then wc = [] ∧ oc = some .nil else Yields (readContent d true) wc oc) :
    Yields (readFields (readContent d) (2*k+1+if c.isNil then 0 else 1)) (wt++(wa++wc))
      (oa.bind fun as => oc.map fun c' => .mk t as c') := by
  refine ht.yields ?_
  have hk : (2*k+1+(if c.isNil then 0 else 1)-1) >>> 1 = k := by
    rw [Nat.shiftRight_eq_div_pow]
    split <;> omega
  simp only [hk]
  refine ha.bind fun as has => ?_
  rw [ofPairs_of_ordered (hord as has)]
  cases hn : c.isNil with
  | true =>
      rw [hn] at hc
      obtain ⟨rfl,rfl⟩ := hc
      simp only [if_true,if_neg (show ¬(2*k+1+0) % 2 = 0 by omega)]
      exact Reads.pure _
  | false =>
      rw [hn] at hc
      simp only [Bool.false_eq_true,if_false,if_pos (show (2*k+1+1) % 2 = 0 by omega)]
      exact Yields.map (fun c' => Node.mk t as c') hc

end Tree

/-- Numbers and booleans are written as ASCII text. -/
theorem scalar_write {d : Dictionary} {v : Value} {s : Bytes} (h : v.scalar = some s) :
    write d v = writeString d s ∧ utf8Valid s = true := by
  cases v with
  | bool b => cases h; exact ⟨rfl,utf8Valid_text _⟩
  | int i | int32 i | int64 i => cases h; exact ⟨rfl,utf8Valid_text _⟩
  | uint n | uint32 n | uint64 n => cases h; exact ⟨rfl,utf8Valid_text _⟩
  | _ => cases h

theorem scalar_yields {d : Dictionary} (hd : d.WellFormed) {v : Value} {s w : Bytes}
    (hv : v.scalar = some s) (hw : write d v = .ok w) :
    Yields (readContent d true) w (v.scalar.map .str) := by
  obtain ⟨he,hs⟩ := scalar_write (d := d) hv
  have hr := string_reads_plain hd (he ▸ hw)
  rw [plainText,if_pos hs] at hr
  rwa [hv]

mutual
/-- The bytes of a tree are read as its reread form or refused. -/
theorem writeNode_yields {d : Dictionary} (hd : d.WellFormed) : ∀ (n : Node) {w : Bytes},
    n.Every Node.Mapped Value.Supported → writeNode d n = .ok w →
      Yields (readNode d) w (rereadNode n)
  | .mk t as c,w,⟨hm,has,hc⟩,hw => by
      rw [writeNode] at hw
      rw [rereadNode]
      by_cases ht : t = nullTag
      · rw [if_pos ht] at hw ⊢
        cases hw
        refine (readByte_reads list8).bind (v := [listEmpty]) ?_
        exact (readInt_reads [listEmpty]).bind_nil (Reads.pure _)
      · have hord : Ordered as := hm
        rw [if_neg ht] at hw ⊢
        simp only [countableAttrs_sorted d hord] at hw
        obtain ⟨h,w₁,hh,hw₁,rfl⟩ := Write.then_eq_ok.mp hw
        obtain ⟨wt,w₂,hwt,hw₂,rfl⟩ := Write.then_eq_ok.mp hw₁
        obtain ⟨wa,wc,hwa,hwc,rfl⟩ := Write.then_eq_ok.mp hw₂
        have hattrs := writeAttrs_yields hd as has hwa
        have hcont : if c.isNil then wc = [] ∧ rereadValue c = some .nil
            else Yields (readContent d true) wc (rereadValue c) := by
          cases hn : c.isNil with
          | true =>
              rw [hn] at hwc
              obtain rfl : c = .nil := by cases c <;> first | rfl | cases hn
              cases hwc
              exact ⟨rfl,by rw [rereadValue]⟩
          | false =>
              rw [hn] at hwc
              exact write_yields hd c hc hwc
        exact node_yields hh (by omega) (fields_yields (string_reads_like hd hwt) hattrs
          (fun as' h' => rereadAttrs_ordered hord h') hcont)
theorem write_yields {d : Dictionary} (hd : d.WellFormed) : ∀ (v : Value) {w : Bytes},
    v.Every Node.Mapped Value.Supported → write d v = .ok w →
      Yields (readContent d true) w (rereadValue v)
  | .nil,w,_,hw => by
      rw [write] at hw
      cases hw
      rw [rereadValue]
      exact listEmpty_reads true
  | .str s,w,_,hw => by
      rw [write] at hw
      rw [rereadValue]
      exact string_reads_plain hd hw
  | .bytes b,w,_,hw => by
      rw [write] at hw
      rw [rereadValue]
      have hr : Reads (readContent d true) w _ := writeBytes_reads hw
      simp only [Bool.true_and] at hr
      exact hr
  | .jid j,w,_,hw => by
      rw [write] at hw
      rw [rereadValue]
      exact writeJID_yields hd hw true
  | .nodes [],w,_,hw => by
      simp only [write,writeNodes] at hw
      cases hw
      simp only [rereadValue,rereadNodes]
      exact listEmpty_reads true
  | .nodes (n::ns),w,⟨_,hns⟩,hw => by
      rw [write] at hw
      obtain ⟨h,wn,hh,hwn,rfl⟩ := Write.then_eq_ok.mp hw
      have hr : Yields (readContent d true) (h++wn) _ := nodes_yields hh (Nat.succ_pos _)
        (writeNodes_yields hd (n::ns) hns hwn)
      have hlist : (rereadNodes (n::ns)).map nodeList = (rereadNodes (n::ns)).map .nodes := by
        rw [rereadNodes]
        cases rereadNode n <;> cases rereadNodes ns <;> rfl
      rwa [rereadValue,hlist]
  | .bool _,_,_,hw | .int _,_,_,hw | .int32 _,_,_,hw | .int64 _,_,_,hw
  | .uint _,_,_,hw | .uint32 _,_,_,hw | .uint64 _,_,_,hw => by
      rw [rereadValue]
      · exact scalar_yields hd rfl hw
      all_goals simp
theorem writeNodes_yields {d : Dictionary} (hd : d.WellFormed) : ∀ (ns : List Node) {w : Bytes},
    EveryNode Node.Mapped Value.Supported ns → writeNodes d ns = .ok w →
      Yields (times ns.length (readNode d)) w (rereadNodes ns)
  | [],w,_,hw => by
      rw [writeNodes] at hw
      cases hw
      rw [rereadNodes]
      exact Reads.pure []
  | n::ns,w,⟨hn,hns⟩,hw => by
      rw [writeNodes] at hw
      obtain ⟨x,y,hx,hy,rfl⟩ := Write.then_eq_ok.mp hw
      rw [rereadNodes]
      exact (writeNode_yields hd n hn hx).bind fun n' _ =>
        (writeNodes_yields hd ns hns hy).map fun ns' => n'::ns'
theorem writeAttrs_yields {d : Dictionary} (hd : d.WellFormed) :
    ∀ (as : List (Bytes × Value)) {w : Bytes},
    EveryAttr Node.Mapped Value.Supported as → writeAll (countableAttrs d as) = .ok w →
      Yields (times (countableAttrs d as).length (readAttr (readContent d))) w (rereadAttrs as)
  | [],w,_,hw => by
      rw [countableAttrs] at hw ⊢
      cases hw
      rw [rereadAttrs]
      exact Reads.pure []
  | (k,v)::as,w,⟨hv,has⟩,hw => by
      rw [countableAttrs] at hw ⊢
      rw [rereadAttrs]
      split_ifs at hw ⊢
      · exact writeAttrs_yields hd as has hw
      · obtain ⟨_,y,hx,hy,rfl⟩ := Write.then_eq_ok.mp hw
        obtain ⟨wk,wv,hk,hwv,rfl⟩ := Write.then_eq_ok.mp hx
        have hattr : Yields (readAttr (readContent d)) (wk++wv)
            ((rereadValue v).map fun v' => (k,v')) :=
          (string_reads_like hd hk).yields ((write_yields hd v hv hwv).map fun v' => (k,v'))
        have hall := hattr.bind (f := fun e => times (countableAttrs d as).length
          (readAttr (readContent d)) >>= fun as' => pure (e::as')) fun e _ =>
            (writeAttrs_yields hd as has hy).map fun as' => e::as'
        rwa [Option.bind_map] at hall
end

mutual
/-- The canonical form of a tree: what the codec identifies, and nothing else. -/
def canonNode : Node → Node
  | .mk t as c => .mk t (canonAttrs as) (canonValue c)
def canonValue : Value → Value
  | .str s => plainText s
  | .bytes b => plainText b
  | .nodes ns => nodeList (canonNodes ns)
  | .node n => .node (canonNode n)
  | .bool b => .str (formatBool b)
  | .int i => .str (formatInt i.toInt)
  | .int32 i => .str (formatInt i.toInt)
  | .int64 i => .str (formatInt i.toInt)
  | .uint n => .str (formatUint n.toNat)
  | .uint32 n => .str (formatUint n.toNat)
  | .uint64 n => .str (formatUint n.toNat)
  | v => v
def canonNodes : List Node → List Node
  | [] => []
  | n::ns => canonNode n::canonNodes ns
def canonAttrs : List (Bytes × Value) → List (Bytes × Value)
  | [] => []
  | (k,v)::as => if v.dropped then canonAttrs as else (k,canonValue v)::canonAttrs as
end

/-- A null node carries neither attributes nor a content. -/
def Node.PlainNull (n : Node) : Prop := n.tag = nullTag → n.attrs = [] ∧ n.content = .nil

/-- The dynamic types of the codec, with representable JIDs. -/
def Value.Codable : Value → Prop
  | .jid j => WireJID j
  | v => v.Supported

mutual
theorem rereadNode_canon : ∀ {n : Node}, n.Every Node.PlainNull Value.Codable →
    rereadNode n = some (canonNode n)
  | .mk t as c,⟨hnull,has,hc⟩ => by
      rw [rereadNode,canonNode]
      split_ifs with ht
      · obtain ⟨rfl,rfl⟩ : as = [] ∧ c = .nil := hnull ht
        rw [ht,canonAttrs,canonValue]
        all_goals simp
      · rw [rereadAttrs_canon has,rereadValue_canon hc]
        rfl
theorem rereadValue_canon : ∀ {v : Value}, v.Every Node.PlainNull Value.Codable →
    rereadValue v = some (canonValue v)
  | .nodes ns,⟨_,hns⟩ => by
      rw [rereadValue,rereadNodes_canon hns,canonValue]
      rfl
  | .jid j,h => by
      rw [rereadValue,(rereadJID_eq_iff j).mpr h,canonValue]
      · rfl
      all_goals simp
  | .nil,_ | .str _,_ | .bytes _,_ | .bool _,_ | .int _,_ | .int32 _,_ | .int64 _,_
  | .uint _,_ | .uint32 _,_ | .uint64 _,_ => by
      simp [rereadValue,canonValue,Value.scalar]
theorem rereadNodes_canon : ∀ {ns : List Node}, EveryNode Node.PlainNull Value.Codable ns →
    rereadNodes ns = some (canonNodes ns)
  | [],_ => by rw [rereadNodes,canonNodes]
  | _::_,⟨hn,hns⟩ => by
      rw [rereadNodes,canonNodes,rereadNode_canon hn,rereadNodes_canon hns]
      rfl
theorem rereadAttrs_canon : ∀ {as : List (Bytes × Value)},
    EveryAttr Node.PlainNull Value.Codable as → rereadAttrs as = some (canonAttrs as)
  | [],_ => by rw [rereadAttrs,canonAttrs]
  | (k,v)::as,⟨hv,has⟩ => by
      rw [rereadAttrs,canonAttrs,rereadAttrs_canon has,rereadValue_canon hv]
      split_ifs <;> rfl
end

/-- What the encoder writes for a tree of codable values decodes to its canonical form. -/
theorem decode_marshalDict (inflate : Bytes → Except String Bytes) (d : Dictionary)
    (hd : d.WellFormed) (n : Node)
    (hn : n.Every (fun m => m.Mapped ∧ Node.PlainNull m) Value.Codable)
    (hok : ∃ w, encode n d = .ok w) : decode inflate d (marshalDict n d) = .ok (canonNode n) := by
  obtain ⟨w,hw⟩ := hok
  have hsup : n.Every Node.Mapped Value.Supported := hn.imp (fun m h => h.1) fun v h => by
    cases v with
    | jid j => trivial
    | _ => exact h
  have hcan : n.Every Node.PlainNull Value.Codable := hn.imp (fun m h => h.2) fun _ h => h
  have hy := writeNode_yields hd n hsup hw
  rw [rereadNode_canon hcan] at hy
  have hr := hy [] []
  rw [List.nil_append,List.append_nil,List.length_nil,Nat.zero_add] at hr
  rw [marshalDict,hw]
  exact (decode_raw d inflate).mpr hr

/-- A number, an empty list and a JID with a device. -/
def sampleMessage : Node :=
  .mk (text "message") [(text "id",.int 7),(text "to",.nodes [])]
    (.jid {user := text "1",device := 2,server := serverLID})

theorem decode_marshalDict_sample :
    decode (fun _ => .error "") DefaultTokens.default
      (marshalDict sampleMessage DefaultTokens.default) =
      .ok (.mk (text "message") [(text "id",.str (text "7")),(text "to",.nil)]
        (.jid {user := text "1",device := 2,server := serverLID})) := by
  refine decode_marshalDict (fun _ => .error "") DefaultTokens.default
    DefaultTokens.default_wellFormed sampleMessage ?_
    ⟨[list8,6,19,8,227,17,listEmpty,adJID,1,2,85],by decide +kernel⟩
  have hkeys : Ordered [(text "id",Value.int 7),(text "to",Value.nodes [])] :=
    ordered_iff_keys.mpr (by decide)
  have htag : text "message" ≠ nullTag := by decide
  exact ⟨⟨hkeys,fun h => (htag h).elim⟩,⟨trivial,⟨trivial,trivial⟩,trivial⟩,
    ⟨by decide,by decide⟩⟩

end BaturWhatsApi.NodeRoundTrip
