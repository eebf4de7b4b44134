import BaturWhatsApi.DefaultTokens
import BaturWhatsApi.NodeDecoder

/-!
# The node stream delimits itself

Every reader body preserves approximation: a content reader that is local and
has enough depth for the remaining input gives a body with the same properties.
The single body that steps back restarts at the tag it has just read, so it
still covers one block. Consequently the depth bound disappears from
`readContent`, and a node that has been read depends on nothing outside its own
block. Prefix freeness of whole payloads and the decoding of concatenated
streams follow from that.
-/
namespace BaturWhatsApi.DecoderLocality
open ByteStrings OrderedEntries TokenDictionary NodeModel NodeEncoder NodeDecoder
open PositionalReaders PositionalReaders.Reader

/-- Agreement of two readers up to the depth error. -/
abbrev Approx {α : Type} (n : ℕ) (r s : Read α) : Prop :=
  Approximates DecodeError.exhausted n r s

section Primitive
variable {n : ℕ}

theorem readRaw_approx (m : ℕ) : Approx n (readRaw m) (readRaw m) :=
  .block (by simp [truncated]) m

theorem readByte_approx : Approx n readByte readByte :=
  (readRaw_approx 1).bind fun _ => .pure _

theorem readInt_approx (m : ℕ) : Approx n (readInt m) (readInt m) :=
  (readRaw_approx m).bind fun _ => .pure _

theorem readTag20_approx : Approx n readTag20 readTag20 := by
  refine (readRaw_approx 3).bind fun b => ?_
  split <;> exact .pure _

theorem listSize_approx (tag : UInt8) : Approx n (listSize tag) (listSize tag) := by
  unfold listSize
  split_ifs
  · exact .pure 0
  · exact readInt_approx 1
  · exact readInt_approx 2
  · exact .failAt (by simp)

theorem bytesOrString_approx (m : ℕ) (asString : Bool) :
    Approx n (bytesOrString m asString) (bytesOrString m asString) := by
  refine (readRaw_approx m).bind fun raw => ?_
  split <;> exact .pure _

theorem unpackByte_ne {tag v : UInt8} {e : DecodeError} (h : unpackByte tag v = .error e) :
    e ≠ .exhausted := by
  unfold unpackByte at h
  split_ifs at h <;> cases h <;> exact fun h => nomatch h

theorem unpackBytes_ne {tag : UInt8} {bs : Bytes} {e : DecodeError}
    (h : unpackBytes tag bs = .error e) : e ≠ .exhausted := by
  induction bs generalizing e with
  | nil => cases h
  | cons b bs ih =>
      rw [unpackBytes] at h
      cases h₁ : unpackByte tag (b >>> 4) with
      | error e₁ => rw [h₁] at h; cases h; exact unpackByte_ne h₁
      | ok c₁ =>
          cases h₂ : unpackByte tag (b &&& 0x0F) with
          | error e₂ => rw [h₁,h₂] at h; cases h; exact unpackByte_ne h₂
          | ok c₂ =>
              cases h₃ : unpackBytes tag bs with
              | error e₃ => rw [h₁,h₂,h₃] at h; cases h; exact ih h₃
              | ok cs => rw [h₁,h₂,h₃] at h; cases h

theorem readPacked8_approx (tag : UInt8) : Approx n (readPacked8 tag) (readPacked8 tag) := by
  refine readByte_approx.bind fun head => (readRaw_approx _).bind fun raw => ?_
  cases h : unpackBytes tag raw with
  | error e => exact .fail (unpackBytes_ne h)
  | ok s =>
      exact .ite (fun _ => .ite (fun _ => .fail (by simp)) fun _ => .pure _) fun _ => .pure _

theorem readByte_one (d : Bytes) (i : ℕ) (a : UInt8) (j : ℕ) (h : readByte d i = .ok (a,j)) :
    i < d.length ∧ j = i+1 := by
  obtain ⟨b,k,hb,hp⟩ := bind_eq_ok h
  cases hp
  unfold readRaw block at hb
  split at hb
  · cases hb
    exact ⟨by omega,rfl⟩
  · cases hb

/-- A body that starts with one byte gains one unit of depth. -/
theorem Approx.after_byte {α : Type} {f g : UInt8 → Read α}
    (h : ∀ tag, Approx n (f tag) (g tag)) : Approx (n+1) (readByte >>= f) (readByte >>= g) :=
  readByte_approx.bind_stepBack readByte_one fun tag => .inl (h tag)

/-- A reader that starts with one byte cannot succeed on an empty block. -/
theorem after_byte_advances {α : Type} {f : UInt8 → Read α} (hl : Local (readByte >>= f))
    {d : Bytes} {i j : ℕ} {a : α} (h : (readByte >>= f) d i = .ok (a,j)) : i < j := by
  have hs := hl d i a j h
  refine lt_of_le_of_ne hs.forward fun hij => ?_
  have hempty := hs.consumes.reads [] []
  rw [← hij,window_self] at hempty
  obtain ⟨b,k,hb,-⟩ := bind_eq_ok hempty
  exact absurd (readByte_one _ _ _ _ hb).1 (by simp)

end Primitive

section Bodies
variable {n : ℕ} {c c' : Bool → Read Value} (hc : ∀ b, Approx n (c b) (c' b))
include hc

theorem readStringLike_approx : Approx n (readStringLike c) (readStringLike c') := by
  refine (hc false).bind fun v => ?_
  split <;> exact .pure _

theorem readJIDPair_approx : Approx n (readJIDPair c) (readJIDPair c') := by
  refine (readStringLike_approx hc).bind fun user => (readStringLike_approx hc).bind fun server => ?_
  split
  · split_ifs
    · exact .fail (by simp)
    · split <;> exact .pure _
  · exact .fail (by simp)

theorem readADJID_approx : Approx n (readADJID c) (readADJID c') := by
  refine readByte_approx.bind fun agent => readByte_approx.bind fun device =>
    (readStringLike_approx hc).bind fun user => ?_
  split <;> exact .pure _

theorem readFBJID_approx : Approx n (readFBJID c) (readFBJID c') :=
  (readStringLike_approx hc).bind fun _ => (readInt_approx 2).bind fun _ =>
    (readStringLike_approx hc).bind fun _ => .pure _

theorem readInteropJID_approx : Approx n (readInteropJID c) (readInteropJID c') :=
  (readStringLike_approx hc).bind fun _ => (readInt_approx 2).bind fun _ =>
    (readInt_approx 2).bind fun _ => (readStringLike_approx hc).bind fun _ => .pure _

theorem readAttr_approx : Approx n (readAttr c) (readAttr c') := by
  refine (readStringLike_approx hc).bind fun key => ?_
  split
  · exact (hc true).bind fun _ => .pure _
  · exact .failAt (by simp)

theorem readFields_approx (size : ℕ) : Approx n (readFields c size) (readFields c' size) := by
  refine (readStringLike_approx hc).bind fun rawTag => ?_
  split
  · exact ((readAttr_approx hc).times _).bind fun attrs =>
      .ite (fun _ => (hc true).bind fun _ => .pure _) fun _ => .pure _
  · exact .fail (by simp)

theorem readNodeBody_approx : Approx (n+1) (readNodeBody c) (readNodeBody c') :=
  .after_byte fun tag => .ite (fun _ => .failAt (by simp)) fun _ =>
    (listSize_approx tag).bind fun size => .ite (fun _ => .pure _) fun _ =>
      .ite (fun _ => .fail (by simp)) fun _ => readFields_approx hc size

theorem readList_approx : Approx (n+1) (readList c) (readList c') :=
  .after_byte fun tag => (listSize_approx tag).bind fun size =>
    (((readNodeBody_approx hc).mono (Nat.le_succ n)).times size).bind fun _ => .pure _

theorem readContentBody_approx (dict : Dictionary) (asString : Bool) :
    Approx (n+1) (readContentBody c dict asString) (readContentBody c' dict asString) := by
  refine readByte_approx.bind_stepBack readByte_one fun tag => ?_
  by_cases hlist : tag = list8 ∨ tag = list16
  · have hne : tag ≠ listEmpty := by rintro rfl; exact absurd hlist (by decide)
    have hl := (readList_approx hc).isLocal
    refine .inr ⟨readList c,readList c',?_,?_,readList_approx hc,
      fun d i v j h => after_byte_advances hl h⟩
    · rw [if_neg hne,if_pos hlist]
    · rw [if_neg hne,if_pos hlist]
  · left
    refine .ite (fun _ => .pure _) fun _ => .ite (fun h => (hlist h).elim) fun _ =>
      .ite (fun _ => (readInt_approx 1).bind fun size => bytesOrString_approx size asString) fun _ =>
      .ite (fun _ => readTag20_approx.bind fun size => bytesOrString_approx size asString) fun _ =>
      .ite (fun _ => (readInt_approx 4).bind fun size => bytesOrString_approx size asString) fun _ =>
      .ite (fun _ => readByte_approx.bind fun i => ?_) fun _ =>
      .ite (fun _ => readFBJID_approx hc) fun _ =>
      .ite (fun _ => readInteropJID_approx hc) fun _ =>
      .ite (fun _ => readJIDPair_approx hc) fun _ =>
      .ite (fun _ => readADJID_approx hc) fun _ =>
      .ite (fun _ => (readPacked8_approx tag).bind fun _ => .pure _) fun _ => ?_
    · split
      · exact .pure _
      · exact .failAt (by simp)
    · split
      · exact .pure _
      · exact .failAt (by simp)

end Bodies

variable (dict : Dictionary)

theorem contentUpTo_increasing (asString : Bool) :
    Increasing DecodeError.exhausted (fun fuel => contentUpTo dict fuel asString) := by
  intro n
  induction n generalizing asString with
  | zero => exact ⟨fun _ _ => .inl rfl,fun _ _ h => absurd h (Nat.not_lt_zero _),.fail _⟩
  | succ n ih => exact readContentBody_approx ih dict asString

/-- The equation of the source: the depth bound is invisible. -/
theorem readContent_eq (asString : Bool) :
    readContent dict asString = readContentBody (readContent dict) dict asString := by
  refine (contentUpTo_increasing dict asString).limit_fixed fun n => ?_
  exact (readContentBody_approx
    (fun b => (contentUpTo_increasing dict b).approximates_limit n) dict asString).agrees

theorem readContent_approx (n : ℕ) (asString : Bool) :
    Approx n (readContent dict asString) (readContent dict asString) :=
  (contentUpTo_increasing dict asString).limit_self n

theorem readNode_local : Local (readNode dict) :=
  (readNodeBody_approx (readContent_approx dict 0)).isLocal

theorem readNode_advances {d : Bytes} {i j : ℕ} {m : Node}
    (h : readNode dict d i = .ok (m,j)) : i < j :=
  after_byte_advances (readNode_local dict) h

/-- A node that spans a whole block is read from that block wherever it stands. -/
theorem readNode_reads {c : Bytes} {m : Node} (h : readNode dict c 0 = .ok (m,c.length)) :
    Reads (readNode dict) c m := by
  have hr := (readNode_local dict c 0 m c.length h).consumes.reads
  rwa [window,List.drop_zero,Nat.sub_zero,List.take_length] at hr

theorem readNode_take_error {d : Bytes} {i j : ℕ} {m : Node}
    (h : readNode dict d i = .ok (m,j)) {k : ℕ} (hk : k < j) :
    ∃ e, readNode dict (d.take k) i = .error e := by
  rcases Nat.lt_or_ge k i with hki | hik
  · -- the position lies behind the cut, so the first byte is missing
    cases hr : readNode dict (d.take k) i with
    | error e => exact ⟨e,rfl⟩
    | ok p =>
        obtain ⟨b,j',hb,-⟩ := bind_eq_ok (b := p.1) (k := p.2) hr
        have hlt := (readByte_one _ _ _ _ hb).1
        rw [List.length_take] at hlt
        omega
  · exact (readNode_local dict d i m j h).take_error hik hk

section Payload
variable (inflate : Bytes → Except String Bytes)

theorem decode_raw {c : Bytes} {m : Node} :
    decode inflate dict (streamFlagRaw::c) = .ok m ↔ readNode dict c 0 = .ok (m,c.length) := by
  have hu : unpack inflate (streamFlagRaw::c) = .ok c := rfl
  unfold decode
  rw [hu]
  constructor
  · intro h
    cases hr : readNode dict c 0 with
    | error e => simp [hr] at h
    | ok p =>
        obtain ⟨m',j⟩ := p
        simp only [hr] at h
        split_ifs at h with hj
        cases h
        rw [not_not.mp hj]
  · intro h
    simp [h]

/-- Of two raw payloads, one a proper prefix of the other, at most one is accepted. -/
theorem decode_prefix {c c' : Bytes} {m : Node} (hp : c' <+: c) (hne : c' ≠ c)
    (h : decode inflate dict (streamFlagRaw::c) = .ok m) (m' : Node) :
    decode inflate dict (streamFlagRaw::c') ≠ .ok m' := by
  intro h'
  have hlen : c'.length < c.length :=
    lt_of_le_of_ne hp.length_le fun hl => hne (hp.eq_of_length hl)
  obtain ⟨e,he⟩ := readNode_take_error dict ((decode_raw dict inflate).mp h) hlen
  rw [← List.prefix_iff_eq_take.mp hp,(decode_raw dict inflate).mp h'] at he
  cases he

end Payload

theorem decodeLoop_flatten {cs : List Bytes} {ms : List Node}
    (h : List.Forall₂ (fun c m => c ≠ [] ∧ Reads (readNode dict) c m) cs ms) (pre : Bytes) :
    ∀ fuel, cs.flatten.length < fuel →
      decodeLoop dict (pre++cs.flatten) fuel pre.length = .ok ms := by
  induction h generalizing pre with
  | nil =>
      intro fuel hf
      obtain ⟨fuel,rfl⟩ := Nat.exists_eq_succ_of_ne_zero (by omega : fuel ≠ 0)
      simp [decodeLoop]
  | @cons c m cs ms hc _ ih =>
      intro fuel hf
      obtain ⟨fuel,rfl⟩ := Nat.exists_eq_succ_of_ne_zero (by omega : fuel ≠ 0)
      have hpos := List.length_pos_of_ne_nil hc.1
      have hr := hc.2 pre cs.flatten
      have hrest := ih (pre++c) fuel (by
        rw [List.flatten_cons,List.length_append] at hf
        omega)
      rw [List.length_append] at hrest
      rw [List.flatten_cons,← List.append_assoc,decodeLoop,
        if_pos (by simp only [List.length_append]; omega),hr]
      simp only [hrest]

/-- A node that is read depends exactly on its block: other inputs with the same
block give the same node, and every earlier cut is refused. Accepted payloads are
therefore prefix free, and concatenated streams decode to the nodes of their parts. -/
theorem readNode_self_delimiting (inflate : Bytes → Except String Bytes) :
    (∀ d i m j, readNode dict d i = .ok (m,j) →
      (∀ d' : Bytes, (∀ k, i ≤ k → k < j → d'[k]? = d[k]?) → readNode dict d' i = .ok (m,j)) ∧
      ∀ k < j, ∃ e, readNode dict (d.take k) i = .error e) ∧
    (∀ c m, decode inflate dict (streamFlagRaw::c) = .ok m →
      (∀ q, q ≠ [] → q <+: streamFlagRaw::c → q ≠ streamFlagRaw::c →
        ∃ e, decode inflate dict q = .error e) ∧
      ∀ q, streamFlagRaw::c <+: q → q ≠ streamFlagRaw::c →
        ∃ e, decode inflate dict q = .error e) ∧
    ∀ cs ms, List.Forall₂ (fun c m => decode inflate dict (streamFlagRaw::c) = .ok m) cs ms →
      decodeStream dict cs.flatten = .ok ms := by
  refine ⟨fun d i m j h => ⟨fun d' hd => ?_,fun k hk => readNode_take_error dict h hk⟩,
    fun c m h => ⟨fun q hq hp hne => ?_,fun q hp hne => ?_⟩,fun cs ms h => ?_⟩
  · exact (readNode_local dict d i m j h).transfer (readNode_advances dict h) hd
  · obtain ⟨x,c',rfl⟩ := List.exists_cons_of_ne_nil hq
    obtain ⟨rfl,hp'⟩ := List.cons_prefix_cons.mp hp
    have hno := decode_prefix dict inflate hp' (fun he => hne (by rw [he])) h
    cases hd : decode inflate dict (streamFlagRaw::c') with
    | error e => exact ⟨e,rfl⟩
    | ok m' => exact (hno m' hd).elim
  · obtain ⟨t,rfl⟩ := hp
    have hno := fun m' h' => decode_prefix dict inflate (m := m') (c := c++t)
      (List.prefix_append c t) (fun he => hne (by rw [List.cons_append,← he])) h' m h
    cases hd : decode inflate dict (streamFlagRaw::c++t) with
    | error e => exact ⟨e,rfl⟩
    | ok m' => exact (hno m' hd).elim
  · have hall := decodeLoop_flatten dict (h.imp fun c m hc => ?_) [] (cs.flatten.length+1)
      (Nat.lt_succ_self _)
    · exact hall
    · have hr := (decode_raw dict inflate).mp hc
      have hlt := readNode_advances dict hr
      exact ⟨List.ne_nil_of_length_pos hlt,readNode_reads dict hr⟩

/-- A message from a user, with a packed number, an id and an encrypted child. -/
def messageBlock : Bytes :=
  [list8,8,19,6,jidPair,nibble8,3,0x62,0x81,0x11,3,8,binary8,2,65,49,4,56,
    list8,1,list8,2,29,binary8,3,104,105,33]

def messageNode : Node :=
  .mk (text "message")
    [(text "from",.jid {user := text "628111",server := serverUser}),(text "id",.str (text "A1")),
     (text "type",.str (text "text"))] (.nodes [.mk (text "enc") [] (.str (text "hi!"))])

theorem readNode_message_delimited :
    readNode DefaultTokens.default (messageBlock++[7]) 0 = .ok (messageNode,28) ∧
    (∀ d' : Bytes, (∀ k, 0 ≤ k → k < 28 → d'[k]? = (messageBlock++[7])[k]?) →
      readNode DefaultTokens.default d' 0 = .ok (messageNode,28)) ∧
    ∀ k < 28, ∃ e, readNode DefaultTokens.default ((messageBlock++[7]).take k) 0 = .error e :=
  ⟨rfl,(readNode_self_delimiting DefaultTokens.default (fun _ => .error "")).1 (messageBlock++[7]) 0
    messageNode 28 rfl⟩

end BaturWhatsApi.DecoderLocality
