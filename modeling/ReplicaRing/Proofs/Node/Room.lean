import ReplicaRing.Client
import ReplicaRing.Proofs.Blob.PageKey
import ReplicaRing.Proofs.Client.Transcripts
import ReplicaRing.Proofs.Codec.Encoding
import ReplicaRing.Proofs.Codec.Spelling
import ReplicaRing.Proofs.Node.Answering
import ReplicaRing.Proofs.Replication.Steady
import ReplicaRing.Proofs.Ring.Placement

/-!
What validated settings leave room for.  The reserve in a payload is that of a key of 1007 bytes, the names
of the two fields with the header of the record, and two headers of three bytes; of those 1007 bytes, a page
takes seventeen for its number and the dot before it.
-/

namespace ReplicaRing

def Message.HasDatagram (message : Message) : Prop :=
  ∃ datagram, message.encode = .ok datagram ∧ datagram.length ≤ Layout.maxDatagram

private theorem Message.hasDatagram {host : Host} {message : Message} (hname : host.HasFitName)
    (hreplyTo : message.replyTo = host.name)
    (hpayload : message.payload.length ≤ Layout.maxPayload) : message.HasDatagram := by
  have hfits : message.Fits := {
    payload := hpayload
    length := hreplyTo ▸ hname.length
    noNul := mt Bytes.zero_mem_ofText.mpr (hreplyTo ▸ hname.noNul) }
  exact ⟨message.layout, hfits.encode, hfits.written.bounded⟩

namespace Hex

private theorem length_digits_le {width n : Nat} (hwidth : 0 < width) (h : n < 16 ^ width) :
    (digits n).length ≤ width := by
  induction width generalizing n with
  | zero => cases hwidth
  | succ width ih =>
      rw [digits]
      split
      case isTrue => exact Nat.le_add_left 1 width
      case isFalse hlarge =>
        have hpos : 0 < width := by
          refine Nat.pos_of_ne_zero fun hzero => ?_
          subst hzero
          exact hlarge h
        have hrest : n / 16 < 16 ^ width := by
          rw [Nat.pow_succ] at h
          omega
        rw [List.length_append, List.length_singleton]
        exact Nat.succ_le_succ (ih hpos hrest)

private theorem length_padded (width n : Nat) : (padded width n).length = max width
    (digits n).length := by
  rw [padded, List.length_append, List.length_replicate]
  omega

end Hex

private theorem Blob.length_pageKey_le (blob : Blob) {page : Nat} (h : page < 2 ^ 64) :
    (blob.pageKey page).length ≤ blob.key.length + 17 := by
  have hdigits : (Hex.digits page).length ≤ 16 := Hex.length_digits_le (by decide) h
  rw [pageKey, List.length_append, List.length_map, List.length_cons, Hex.length_padded]
  omega

private theorem Entry.fits_of_lengths {key value : Bytes} (hkey : key.length ≤ 1007)
    (hvalue : value.length + Settings.envelopeReserve ≤ Layout.maxPayload) :
    Entry.Fits { key, value } := by
  simp only [Settings.envelopeReserve, Layout.maxPayload, Layout.maxDatagram,
    Layout.headerSize] at hvalue
  have hkeyHeader : Cbor.headerLength key.length ≤ 3 := Cbor.headerLength_le_three (by omega)
  have hvalueHeader : Cbor.headerLength value.length ≤ 3 := Cbor.headerLength_le_three (by omega)
  rw [Fits, length_written, size]
  simp only [Layout.maxPayload, Layout.maxDatagram, Layout.headerSize]
  omega

private theorem Entry.size_of_lengths {key value : Bytes} (hkey : key.length = 1007)
    (hvalue : value.length + Settings.envelopeReserve = Layout.maxPayload) :
    Entry.size { key, value } = Layout.maxPayload := by
  have hlength : value.length = 64217 := Nat.add_right_cancel hvalue
  rw [size, hkey, hlength]
  rfl

namespace Host

open Replication (plan)

def asking (host : Host) (request : Request) (id : UInt64) (payload : Bytes) : Message :=
  ((host.request request.topic request.verb).withRequestId id).withPayload payload

structure CanSend (host : Host) (request : Request) : Prop where
  written : ∃ payload, request.payload = .ok payload ∧
    ∀ id, (host.asking request id payload).HasDatagram
  /-- Where there is a ring, the request has targets and goes to them in a datagram. -/
  planned : ∀ id roster ring, Ring.ofRoster roster = .ok ring → ring.size ≠ 0 →
    ∃ targets message, targets ≠ [] ∧ plan host request id roster = .ok (targets, message) ∧
      message.HasDatagram
  /-- Whatever comes, the request then ends in an error only if no target could be sent to. -/
  unfailing : ∀ course : Replication.Course, course.host = host → course.request = request →
    (∀ time roster, course.events time = .move roster →
      ∃ ring, Ring.ofRoster roster = .ok ring ∧ ring.size ≠ 0) →
    ∀ time, (course.run time).state = .error → ∃ fanOut targets, fanOut < time ∧
      course.FansOut fanOut targets ∧
      ∀ peer ∈ targets, ∃ failed, failed < time ∧ course.Fails failed peer.name

structure CanAnswer (host : Host) (key value : Bytes) : Prop where
  put : ∀ {S : Type} [Storage S] (storage after : S) (asked : Message) (entry : Entry),
    Entry.decode asked.payload = .ok entry →
    Storage.put storage entry.key entry.value = (.ok (), after) →
    ∃ answer, Server.put host storage asked = (.ok answer, after) ∧ answer.HasDatagram
  found : ∀ {S : Type} [Storage S] (storage : S) (asked : Message) (entry : Entry),
    Entry.decode asked.payload = .ok entry → entry.key = key →
    Storage.get storage key = .ok (some value) →
    ∃ answer, Server.get host storage asked = .ok answer ∧ answer.HasDatagram ∧
      Entry.decode answer.payload = .ok { key, value }
  missing : ∀ {S : Type} [Storage S] (storage : S) (asked : Message) (entry : Entry),
    Entry.decode asked.payload = .ok entry → entry.key = key →
    Storage.get storage key = .ok none →
    ∃ answer, Server.get host storage asked = .ok answer ∧ answer.HasDatagram

variable {host : Host} {request : Request} {key value : Bytes}

private theorem exists_plan (hname : host.HasFitName) (hfits : request.entry.Fits) (id : UInt64)
    {roster : Roster} {ring : Ring} (hring : Ring.ofRoster roster = .ok ring) (hsize : ring.size ≠ 0) :
    ∃ targets message, targets ≠ [] ∧ plan host request id roster = .ok (targets, message) ∧
      message.HasDatagram := by
  have hreplicas := roster.replicas_eq (.hash request.key) request.level
  rw [hring] at hreplicas
  simp only [if_neg hsize] at hreplicas
  obtain ⟨message, hplan⟩ := Replication.exists_plan hreplicas hfits hname id
  have hplans := Replication.plan_eq_ok hplan
  obtain ⟨datagram, hdatagram⟩ := hplans.encodes
  exact ⟨_, message, Roster.replicas_ne_nil hreplicas, hplan,
    Message.hasDatagram hname hplans.replyTo (Message.encode_eq_ok hdatagram).1⟩

private theorem CanSend.of_fits (hname : host.HasFitName) (hfits : request.entry.Fits) :
    host.CanSend request where
  written := ⟨_, hfits.encode, fun id => Message.hasDatagram hname rfl hfits⟩
  planned id roster ring hring hsize := exists_plan hname hfits id hring hsize
  unfailing course hhost hrequest hrings time hstate := by
    subst hhost
    subst hrequest
    cases course.stands time (hstate ▸ .of_isTerminal rfl) with
    | refused earlier roster error _ _ hfeeds _ hrefused =>
        obtain ⟨ring, hring, hsize⟩ := hrings earlier roster hfeeds.1
        obtain ⟨_, _, -, hplan, -⟩ := exists_plan hname hfits course.id hring hsize
        cases hplan.symm.trans hrefused
    | sent fanOut targets standing hbefore hfansOut _ herror hfailed =>
        refine ⟨fanOut, targets, hbefore, hfansOut, fun peer hpeer => hfailed peer.name ?_⟩
        exact Replication.Standing.isUnsent_eq_true.mp
          (herror hstate peer.name (List.mem_map_of_mem hpeer))

private theorem CanAnswer.of_fits (hname : host.HasFitName) (hfits : Entry.Fits { key, value }) :
    host.CanAnswer key value where
  put storage after asked entry hentry hput := by
    refine ⟨host.reply asked Verb.putAck, ?_, Message.hasDatagram hname rfl (Nat.zero_le _)⟩
    simp only [Server.put, hentry, hput]
  found storage asked entry hentry hkey hget := by
    subst hkey
    refine ⟨(host.reply asked Verb.getAck).withPayload _, ?_, Message.hasDatagram hname rfl hfits,
      Entry.decode_of_encode hfits.encode⟩
    rw [Server.get, Except.mapError_bind_of_ok hentry, Except.mapError_bind_of_ok hget]
    exact Except.mapError_bind_of_ok hfits.encode _
  missing storage asked entry hentry hkey hget := by
    subst hkey
    refine ⟨host.reply asked Verb.getNack, ?_, Message.hasDatagram hname rfl (Nat.zero_le _)⟩
    rw [Server.get, Except.mapError_bind_of_ok hentry, Except.mapError_bind_of_ok hget]
    rfl

end Host

private theorem Client.eq_of_load {host : Host} {key : Bytes} {level : Level}
    {events : List (Program.Event Exchange Exchange.Result)} {result : Option Bytes × Outcome}
    (h : (Client.load host key level).Yields events result) :
    ∃ (state : Replication.State) (rest : List (Program.Event Exchange Exchange.Result)),
      events = ⟨.replicate (.load key level), state⟩ :: rest ∧
        result = (state.value?, state.outcome) := by
  change Program.Yields (.ask _ _) _ _ at h
  cases h with
  | ask state hrest =>
      refine ⟨state, _, rfl, ?_⟩
      cases state with
      | partialSuccess receipt =>
          cases receipt with
          | stored =>
              cases hrest
              rfl
          | found value =>
              change Program.Yields (((Client.store host key value level).bind fun _ =>
                .done (.partialSuccess (.found value))).bind
                  fun state : Replication.State => .done (state.value?, state.outcome)) _ _ at hrest
              rw [Client.store] at hrest
              split at hrest
              case isTrue =>
                cases hrest
                rfl
              case isFalse =>
                cases hrest with
                | ask _ hdone =>
                    cases hdone
                    rfl
      | _ =>
          cases hrest
          rfl

namespace Settings

open Message (zeros length_zeros)

variable {settings : Settings} {key value : Bytes}

private theorem sizes_of_validate (h : settings.validate = .ok ()) :
    settings.protocol.maxValueSize + envelopeReserve ≤ Layout.maxPayload ∧
      settings.pageSize ≤ settings.protocol.maxValueSize := by
  simp only [validate] at h
  split at h
  · cases h
  split at h
  · cases h
  split at h
  · cases h
  split at h
  · cases h
  case isFalse hvalue =>
    split at h
    · cases h
    case isFalse hpage =>
      rw [not_or, Nat.not_lt] at hpage
      exact ⟨Nat.le_of_not_lt hvalue, hpage.2⟩

/-- The value can be stored and loaded under the key, whoever it is that answers. -/
structure HasRoomFor (settings : Settings) (key value : Bytes) : Prop where
  store : ∀ level, settings.host.CanSend (.store key value level)
  load : ∀ level, settings.host.CanSend (.load key level)
  answers : ∀ other : Settings, other.validate = .ok () → other.host.CanAnswer key value
  stored : ∀ level, Client.store settings.host key value level =
    .ask (.replicate (.store key value level)) fun state : Replication.State => .done state.outcome
  loaded : ∀ level events result, (Client.load settings.host key level).Yields events result →
    ∃ (state : Replication.State) (rest : List (Program.Event Exchange Exchange.Result)),
      events = ⟨.replicate (.load key level), state⟩ :: rest ∧ result = (state.value?, state.outcome)

private theorem hasRoomFor (h : settings.validate = .ok ()) (hkey : key.length ≤ 1007)
    (hvalue : value.length ≤ settings.protocol.maxValueSize) : settings.HasRoomFor key value := by
  have hname := hasFitName h
  have hroom := (sizes_of_validate h).1
  have hfits : Entry.Fits { key, value } := Entry.fits_of_lengths hkey (by omega)
  have hbare : Entry.Fits { key } := Entry.fits_of_lengths hkey (by simp; omega)
  exact {
    store := fun level => .of_fits hname hfits
    load := fun level => .of_fits hname hbare
    answers := fun other hother => .of_fits (hasFitName hother) hfits
    stored := fun level => if_neg (Nat.not_lt.mpr hvalue)
    loaded := fun level events result => Client.eq_of_load }

/-- Validated settings leave room for every key of 1007 bytes with every value that a client may store, and
for every page of a blob with a key of 990 bytes. -/
theorem validated_has_room (settings : Settings) (h : settings.validate = .ok ()) :
    (∀ key value : Bytes, key.length ≤ 1007 → value.length ≤ settings.protocol.maxValueSize →
      settings.HasRoomFor key value) ∧
    ∀ (blob : Blob) (page : Nat) (data : Bytes), blob.key.length ≤ 990 → page < 2 ^ 64 →
      blob.pageSize = settings.pageSize → data.length = blob.pageSize →
        settings.HasRoomFor (blob.pageKey page) data := by
  refine ⟨fun key value => hasRoomFor h, fun blob page data hkey hpage hsize hdata => ?_⟩
  have hlength := blob.length_pageKey_le hpage
  have hpageSize := (sizes_of_validate h).2
  exact hasRoomFor h (by omega) (by omega)

/-- The largest values and pages that there can be. -/
def brimful : Settings where
  name := "a"
  protocol := { maxValueSize := 64217 }
  pageSize := 64217

private theorem validate_brimful : brimful.validate = .ok () := by
  simp only [validate]
  rw [if_neg (by decide), if_neg (by decide), if_neg (by decide), if_neg (by decide),
    if_neg (by decide)]

def largestBlob : Blob := ⟨zeros 990, 0xFFFFFFFFFFFFFFFF, 64217, .one, Nat.succ_pos _⟩

theorem validated_has_room_of_brimful :
    brimful.validate = .ok () ∧ brimful.HasRoomFor (zeros 1007) (zeros 64217) ∧
      Entry.size ⟨zeros 1007, zeros 64217⟩ = Layout.maxPayload ∧
      brimful.HasRoomFor (largestBlob.pageKey 0xFFFFFFFFFFFFFFFF) (zeros 64217) := by
  have hkey : largestBlob.key.length = 990 := length_zeros 990
  obtain ⟨hentries, hpages⟩ := validated_has_room brimful validate_brimful
  refine ⟨validate_brimful, hentries _ _ ?_ ?_, ?_, hpages largestBlob _ _ ?_ (by decide) rfl ?_⟩
  · rw [length_zeros]
  · rw [length_zeros]
    exact Nat.le_refl _
  · exact Entry.size_of_lengths (length_zeros 1007) (congrArg (· + envelopeReserve) (length_zeros 64217))
  · rw [hkey]
  · exact length_zeros 64217

end Settings

end ReplicaRing
