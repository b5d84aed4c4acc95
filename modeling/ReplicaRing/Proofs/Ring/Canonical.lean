import Mathlib.Data.List.Duplicate
import ReplicaRing.Proofs.Codec.Wire
import ReplicaRing.Proofs.Membership.Changes

/-!
A ring is made of its tokens in one way only: in the order of their positions, or with an error that
names the smallest position that two of them share.  Tokens of a roster share a position only where the
digests of two different labels agree.
-/

namespace ReplicaRing

private theorem Bytes.ofText_injective {text other : String} (h : ofText text = ofText other) :
    text = other := by
  have hread := congrArg toText? h
  rwa [toText?_ofText, toText?_ofText, Option.some.injEq] at hread

private theorem exists_ne_of_duplicate_map {Item Value : Type} {read : Item → Value} {value : Value}
    {items : List Item} (hnodup : items.Nodup) (h : List.Duplicate value (items.map read)) :
    ∃ first ∈ items, ∃ second ∈ items, first ≠ second ∧ read first = value ∧ read second = value := by
  induction items with
  | nil => cases h
  | cons item rest ih =>
      obtain ⟨hnew, hrest⟩ := List.nodup_cons.mp hnodup
      rw [List.map_cons, List.duplicate_cons_iff] at h
      rcases h with ⟨hitem, hagain⟩ | hlater
      · obtain ⟨second, hsecond, hvalue⟩ := List.mem_map.mp hagain
        have hne : item ≠ second := fun heq => hnew (heq ▸ hsecond)
        exact ⟨item, List.mem_cons_self, second, List.mem_cons_of_mem _ hsecond, hne, hitem, hvalue⟩
      · obtain ⟨first, hfirst, second, hsecond, hboth⟩ := ih hrest hlater
        exact ⟨first, List.mem_cons_of_mem _ hfirst, second, List.mem_cons_of_mem _ hsecond, hboth⟩

namespace Token

variable {tokens others : List Token} {position other : Position}

/-- Two or more of the tokens are at the position, and at none below it. -/
structure IsFirstShared (tokens : List Token) (position : Position) : Prop where
  shared : List.Duplicate position (tokens.map Token.position)
  least : ∀ other, List.Duplicate other (tokens.map Token.position) → position ≤ other

private theorem IsFirstShared.unique (h : IsFirstShared tokens position)
    (hother : IsFirstShared tokens other) : position = other :=
  BitVec.le_antisymm (h.least other hother.shared) (hother.least position h.shared)

private theorem IsFirstShared.not_nodup (h : IsFirstShared tokens position) :
    ¬(tokens.map Token.position).Nodup := h.shared.not_nodup

private theorem IsFirstShared.perm (h : IsFirstShared tokens position)
    (hperm : tokens.Perm others) :
    IsFirstShared others position := by
  have hsame : ∀ other, List.Duplicate other (tokens.map Token.position) ↔
      List.Duplicate other (others.map Token.position) := by
    intro other
    rw [List.duplicate_iff_two_le_count, List.duplicate_iff_two_le_count,
      (hperm.map Token.position).count_eq]
  exact ⟨(hsame position).mp h.shared, fun other hother => h.least other ((hsame other).mpr hother)⟩

private theorem isFirstShared_of_firstRepeat?
    (hle : tokens.Pairwise fun a b => a.position ≤ b.position)
    (h : firstRepeat? tokens = some position) : IsFirstShared tokens position := by
  fun_induction firstRepeat? tokens with
  | case1 first second rest heq =>
      cases h
      refine ⟨?_, fun other hother => ?_⟩
      · rw [List.map_cons, List.map_cons, ← heq]
        exact List.Mem.duplicate_cons_self List.mem_cons_self
      · obtain ⟨token, htoken, rfl⟩ := List.mem_map.mp hother.mem
        rcases List.mem_cons.mp htoken with rfl | hrest
        · exact BitVec.le_refl _
        · exact (List.pairwise_cons.mp hle).1 token hrest
  | case2 first second rest hne ih =>
      obtain ⟨hfirst, hrest⟩ := List.pairwise_cons.mp hle
      obtain ⟨hshared, hleast⟩ := ih hrest h
      have hbelow : ∀ token ∈ second :: rest, first.position < token.position := by
        intro token htoken
        have hsecond : first.position < second.position := by
          have := hfirst second List.mem_cons_self
          bv_omega
        rcases List.mem_cons.mp htoken with rfl | hlater
        · exact hsecond
        · have := (List.pairwise_cons.mp hrest).1 token hlater
          bv_omega
      refine ⟨hshared.duplicate_cons _, fun other hother => hleast other ?_⟩
      -- The first token is below all others, so it has no part in what is shared.
      rw [List.map_cons, List.duplicate_cons_iff] at hother
      rcases hother with ⟨rfl, hagain⟩ | hlater
      · obtain ⟨token, htoken, heq⟩ := List.mem_map.mp hagain
        exact absurd heq (BitVec.ne_of_lt (hbelow token htoken)).symm
      · exact hlater
  | case3 => cases h

/-- A label gives away whose it is and which. -/
private theorem label_eq_iff {name other : String} {index number : UInt32} :
    label name index = label other number ↔ name = other ∧ index = number := by
  refine ⟨fun h => ?_, fun ⟨hname, hindex⟩ => by rw [hname, hindex]⟩
  obtain ⟨hname, hindex⟩ := List.append_inj' h (by simp)
  refine ⟨Bytes.ofText_injective hname, UInt32.toNat.inj ?_⟩
  have hread := congrArg Bytes.toNat hindex
  rwa [Bytes.toNat_bigEndian_of_lt (by simpa using index.toNat_lt),
    Bytes.toNat_bigEndian_of_lt (by simpa using number.toNat_lt)] at hread

end Token

namespace Roster

variable {roster : Roster} {peers others : List Peer} {peer : Peer} {token : Token}

private theorem of_mem_tokens (h : token ∈ roster.tokens) :
    token.owner ∈ roster.peers ∧ token.index < token.owner.tokens ∧
      token.position = Position.hash (Token.label token.owner.name token.index) := by
  obtain ⟨peer, hpeer, hminted⟩ := List.mem_flatMap.mp h
  obtain ⟨index, hindex, rfl⟩ := List.mem_map.mp hminted
  have hlt : index < peer.tokens.toNat := List.mem_range.mp hindex
  have hsmall := peer.tokens.toNat_lt
  have hbelow : UInt32.ofNat index < peer.tokens := by
    rw [UInt32.lt_iff_toNat_lt, UInt32.toNat_ofNat']
    omega
  exact ⟨hpeer, hbelow, rfl⟩

private theorem nodup_mintTokens (peer : Peer) : peer.mintTokens.Nodup := by
  refine List.Nodup.map_on (fun index hindex other hother heq => ?_) List.nodup_range
  have hsmall := peer.tokens.toNat_lt
  rw [List.mem_range] at hindex hother
  have hsame := congrArg (fun token => token.index.toNat) heq
  simp only [Token.mint, UInt32.toNat_ofNat'] at hsame
  omega

private theorem nodup_tokens (roster : Roster) : roster.tokens.Nodup := by
  refine List.nodup_flatMap.mpr ⟨fun peer _ => nodup_mintTokens peer, ?_⟩
  refine (roster.names_nodup.of_map Peer.name).imp fun {first second} hne => ?_
  intro token hfirst hsecond
  exact hne ((owner_of_mem_mintTokens hfirst).symm.trans (owner_of_mem_mintTokens hsecond))

private theorem countP_owner (peers : List Peer) (peer : Peer) :
    (peers.flatMap Peer.mintTokens).countP (fun token => token.owner = peer) =
      peers.count peer * peer.tokens.toNat := by
  induction peers with
  | nil => simp
  | cons first rest ih =>
      rw [List.flatMap_cons, List.countP_append, ih, List.count_cons]
      by_cases hfirst : first = peer
      · have hall : first.mintTokens.countP (fun token => token.owner = peer) =
            first.mintTokens.length := by
          refine List.countP_eq_length.mpr fun token htoken => ?_
          rw [owner_of_mem_mintTokens htoken]
          exact decide_eq_true hfirst
        subst hfirst
        rw [hall, beq_self_eq_true, if_pos rfl, Nat.add_mul, Nat.one_mul, Peer.mintTokens,
          List.length_map, List.length_range, Nat.add_comm]
      · have hnone : first.mintTokens.countP (fun token => token.owner = peer) = 0 := by
          refine List.countP_eq_zero.mpr fun token htoken => ?_
          rw [owner_of_mem_mintTokens htoken]
          simpa using hfirst
        rw [hnone, beq_false_of_ne hfirst]
        simp

private theorem find?_foldl_insert (hnames : (peers.map Peer.name).Nodup) (roster : Roster)
    (name : String) :
    (peers.foldl insert roster).find? name = some peer ↔
      (peer ∈ peers ∧ peer.name = name) ∨
        (name ∉ peers.map Peer.name ∧ roster.find? name = some peer) := by
  induction peers generalizing roster with
  | nil => simp
  | cons first rest ih =>
      obtain ⟨hnew, hrest⟩ := List.nodup_cons.mp hnames
      rw [List.foldl_cons, ih hrest, find?_insert, List.map_cons, List.mem_cons, List.mem_cons]
      by_cases hfirst : name = first.name
      · subst hfirst
        simp only [hnew, not_false_eq_true, true_and, not_true_eq_false, false_and, or_false, if_true,
          Option.some.injEq]
        constructor
        · rintro (⟨hmem, hname⟩ | rfl)
          · exact ⟨.inr hmem, hname⟩
          · exact ⟨.inl rfl, rfl⟩
        · rintro ⟨rfl | hmem, hname⟩
          · exact .inr rfl
          · exact .inl ⟨hmem, hname⟩
      · have hne : peer.name = name → peer ≠ first := fun hname heq => hfirst (heq ▸ hname.symm)
        simp only [hfirst, if_false, false_or]
        refine or_congr_left (and_congr_left fun hname => ?_)
        exact (or_iff_right (hne hname)).symm

private theorem ofList_perm (hnames : (peers.map Peer.name).Nodup) (h : peers.Perm others) :
    ofList others = ofList peers := by
  have hothers : (others.map Peer.name).Nodup := (h.map Peer.name).nodup_iff.mp hnames
  refine eq_of_find?_eq fun name => Option.ext fun peer => ?_
  rw [ofList, ofList, find?_foldl_insert hothers, find?_foldl_insert hnames, h.mem_iff,
    (h.map Peer.name).mem_iff]

/-- Two different labels of the roster's tokens are placed at the position. -/
def Clashes (roster : Roster) (position : Position) : Prop :=
  ∃ first ∈ roster.peers, ∃ second ∈ roster.peers,
    ∃ index < first.tokens, ∃ number < second.tokens,
      Token.label first.name index ≠ Token.label second.name number ∧
        Position.hash (Token.label first.name index) = position ∧
        Position.hash (Token.label second.name number) = position

private theorem clashes_of_isFirstShared {position : Position}
    (h : Token.IsFirstShared roster.tokens position) : roster.Clashes position := by
  obtain ⟨first, hfirst, second, hsecond, hne, hthere, hthereToo⟩ :=
    exists_ne_of_duplicate_map roster.nodup_tokens h.shared
  obtain ⟨howner, hindex, hplace⟩ := of_mem_tokens hfirst
  obtain ⟨hother, hnumber, hplaceToo⟩ := of_mem_tokens hsecond
  refine ⟨_, howner, _, hother, _, hindex, _, hnumber, fun hlabel => hne ?_,
    hplace.symm.trans hthere, hplaceToo.symm.trans hthereToo⟩
  obtain ⟨hname, hsame⟩ := Token.label_eq_iff.mp hlabel
  have hpeer : first.owner = second.owner := eq_of_name_eq howner hother hname
  have hposition : first.position = second.position := hthere.trans hthereToo.symm
  cases first
  cases second
  simp_all

end Roster

namespace Ring

variable {tokens others : List Token}

private theorem isFirstShared_of_ofTokens {error : RingError} (h : ofTokens tokens = .error error) :
    ∃ position, error = .collision position ∧ Token.IsFirstShared tokens position := by
  unfold ofTokens at h
  simp only at h
  split at h
  case h_2 => cases h
  case h_1 position hrepeat =>
    cases h
    have hshared := Token.isFirstShared_of_firstRepeat? (pairwise_sortTokens tokens) hrepeat
    exact ⟨position, rfl, hshared.perm (List.mergeSort_perm _ _)⟩

private theorem nodup_of_ofTokens {ring : Ring} (h : ofTokens tokens = .ok ring) :
    (tokens.map Token.position).Nodup := by
  refine ((perm_of_ofTokens h).map Token.position).nodup_iff.mp ?_
  exact List.pairwise_map.mpr (ring.sorted.imp fun hlt => BitVec.ne_of_lt hlt)

private theorem ofTokens_eq_error_iff {error : RingError} :
    ofTokens tokens = .error error ↔
      ∃ position, error = .collision position ∧ Token.IsFirstShared tokens position := by
  refine ⟨isFirstShared_of_ofTokens, ?_⟩
  rintro ⟨position, rfl, hshared⟩
  cases hresult : ofTokens tokens with
  | ok ring => exact absurd (nodup_of_ofTokens hresult) hshared.not_nodup
  | error error =>
      obtain ⟨other, rfl, hother⟩ := isFirstShared_of_ofTokens hresult
      rw [hshared.unique hother]

private theorem exists_ofTokens_iff {ordered : List Token} :
    (∃ ring, ofTokens tokens = .ok ring ∧ ring.tokens.toList = ordered) ↔
      ordered.Perm tokens ∧ ordered.Pairwise fun a b => a.position < b.position := by
  constructor
  · rintro ⟨ring, hring, rfl⟩
    exact ⟨perm_of_ofTokens hring, ring.sorted⟩
  · rintro ⟨hperm, hsorted⟩
    exact ⟨_, ofTokens_of_perm hsorted hperm.symm, rfl⟩

private theorem ofTokens_perm (h : tokens.Perm others) : ofTokens others = ofTokens tokens := by
  cases hresult : ofTokens tokens with
  | ok ring => exact ofTokens_of_perm ring.sorted (h.symm.trans (perm_of_ofTokens hresult).symm)
  | error error =>
      obtain ⟨position, hposition, hshared⟩ := isFirstShared_of_ofTokens hresult
      exact ofTokens_eq_error_iff.mpr ⟨position, hposition, hshared.perm h⟩

/-- What becomes of tokens: they are the ring in the order of their positions, or a smallest position is
shared. -/
structure MadeOf (tokens : List Token) (result : Except RingError Ring) : Prop where
  ok_iff : (∃ ring, result = .ok ring) ↔ (tokens.map Token.position).Nodup
  ordered_iff : ∀ ordered, (∃ ring, result = .ok ring ∧ ring.tokens.toList = ordered) ↔
    ordered.Perm tokens ∧ ordered.Pairwise fun a b => a.position < b.position
  collision_iff : ∀ error, result = .error error ↔
    ∃ position, error = .collision position ∧ Token.IsFirstShared tokens position

private theorem madeOf (tokens : List Token) : MadeOf tokens (ofTokens tokens) where
  ok_iff := ⟨fun ⟨_, hring⟩ => nodup_of_ofTokens hring, exists_of_nodup⟩
  ordered_iff _ := exists_ofTokens_iff
  collision_iff _ := ofTokens_eq_error_iff

/-- What becomes of peers: each has as many places on the ring as it has tokens, or two labels clash. -/
structure SharedBy (roster : Roster) (result : Except RingError Ring) : Prop where
  count : ∀ ring, result = .ok ring → ∀ peer ∈ roster.peers,
    ring.tokens.toList.countP (fun token => token.owner = peer) = peer.tokens.toNat
  clash : ∀ error, result = .error error →
    ∃ position, error = .collision position ∧ roster.Clashes position

private theorem sharedBy (roster : Roster) : SharedBy roster (ofRoster roster) where
  count ring hring peer hpeer := by
    have honce : roster.peers.count peer = 1 :=
      List.count_eq_one_of_mem (roster.names_nodup.of_map Peer.name) hpeer
    rw [(perm_of_ofTokens hring).countP_eq, Roster.tokens, Roster.countP_owner, honce, Nat.one_mul]
  clash error herror := by
    obtain ⟨position, hposition, hshared⟩ := isFirstShared_of_ofTokens herror
    exact ⟨position, hposition, Roster.clashes_of_isFirstShared hshared⟩

/-- Tokens make one ring, or are refused for one position, in whichever order they or their peers come;
and only labels with one digest keep peers from making a ring. -/
theorem ofTokens_canonical :
    (∀ tokens, MadeOf tokens (ofTokens tokens) ∧
        ∀ others, tokens.Perm others → ofTokens others = ofTokens tokens) ∧
      (∀ peers others : List Peer, (peers.map Peer.name).Nodup → peers.Perm others →
        ofRoster (.ofList others) = ofRoster (.ofList peers)) ∧
      (∀ roster, SharedBy roster (ofRoster roster)) ∧
      ∀ name other index number,
        Token.label name index = Token.label other number ↔ name = other ∧ index = number := by
  refine ⟨fun tokens => ⟨madeOf tokens, fun others => ofTokens_perm⟩, ?_, sharedBy, ?_⟩
  · intro peers others hnames hperm
    rw [Roster.ofList_perm hnames hperm]
  · intro name other index number
    exact Token.label_eq_iff

def crowded : List Token := [9, 7, 8, 9, 7].map fun position => ⟨⟨"a", .localhost 1, 5⟩, 0, position⟩

theorem ofTokens_canonical_of_crowded :
    ofTokens crowded = .error (.collision 7) ∧ ofTokens crowded.reverse = .error (.collision 7) ∧
      ofRoster (.ofList [⟨"b", .localhost 2, 1⟩, ⟨"a", .localhost 1, 2⟩]) =
        ofRoster (.ofList [⟨"a", .localhost 1, 2⟩, ⟨"b", .localhost 2, 1⟩]) := by
  obtain ⟨htokens, hpeers, -⟩ := ofTokens_canonical
  obtain ⟨hmade, hperm⟩ := htokens crowded
  have hshared : Token.IsFirstShared crowded 7 := by
    refine ⟨by decide, fun other hother => ?_⟩
    have hall : ∀ position ∈ crowded.map Token.position, (7 : Position) ≤ position := by
      simp [crowded]
    exact hall other hother.mem
  have hcollision := (hmade.collision_iff _).mpr ⟨7, rfl, hshared⟩
  exact ⟨hcollision, (hperm _ crowded.reverse_perm.symm).trans hcollision,
    hpeers _ _ (by decide) (.swap _ _ [])⟩

end Ring

end ReplicaRing
