import AutonomiWebrtc.Dtls.Header

/-!
# Records in datagrams

`compact_raw_packets` puts the records of one write into datagrams, `unpack_datagram` takes
a datagram apart by the length fields of the records in it.

A datagram is taken apart when it is a row of records, each as long as its own length field
says.  A record without contents is let through, except as the last one: what is left is then
no longer than a header, and the whole datagram is refused.
-/

namespace AutonomiWebrtc.Dtls

open Readers Octets

/-! ## The two functions -/

/-- The length field of the record at the front. -/
def contentLength (buf : Bytes) : ℕ :=
  ofBeBytes ((buf.take recordLayerHeaderSize).drop (recordLayerHeaderSize - 2))

/-- `unpack_datagram`. -/
def unpackDatagram (buf : Bytes) : Except (Fault Error) (List Bytes) :=
  if buf = [] then .ok []
  else if buf.length ≤ recordLayerHeaderSize then .error (.err .errInvalidPacketLength)
  else
    let pktLen := recordLayerHeaderSize + contentLength buf
    if buf.length < pktLen then .error (.err .errInvalidPacketLength)
    else do
      let out ← unpackDatagram (buf.drop pktLen)
      pure (buf.take pktLen :: out)
termination_by buf.length
decreasing_by
  simp only [List.length_drop, recordLayerHeaderSize] at *
  omega

/-- One round of `compact_raw_packets`: the datagrams that are full, and the current one. -/
def compactStep (maximumTransmissionUnit : ℕ) (packed : List Bytes × Bytes) (rawPacket : Bytes) :
    List Bytes × Bytes :=
  if packed.2 ≠ [] ∧ maximumTransmissionUnit ≤ packed.2.length + rawPacket.length then
    (packed.1 ++ [packed.2], rawPacket)
  else (packed.1, packed.2 ++ rawPacket)

/-- `compact_raw_packets`. -/
def compactRawPackets (rawPackets : List Bytes) (maximumTransmissionUnit : ℕ) : List Bytes :=
  let packed := rawPackets.foldl (compactStep maximumTransmissionUnit) ([], [])
  packed.1 ++ [packed.2]

/-! ## What is taken apart -/

/-- The record is as long as its length field says. -/
structure Framed (record : Bytes) : Prop where
  header : recordLayerHeaderSize ≤ record.length
  length : record.length = recordLayerHeaderSize + contentLength record

theorem contentLength_append {record : Bytes} (rest : Bytes)
    (hheader : recordLayerHeaderSize ≤ record.length) :
    contentLength (record ++ rest) = contentLength record := by
  rw [contentLength, List.take_append_of_le_length hheader, contentLength]

theorem contentLength_take {buf : Bytes} {length : ℕ} (hlength : recordLayerHeaderSize ≤ length) :
    contentLength (buf.take length) = contentLength buf := by
  rw [contentLength, List.take_take, Nat.min_eq_left hlength, contentLength]

/-- The length field is where the header has it. -/
theorem contentLength_octets (header : RecordLayerHeader) (body : Bytes) :
    contentLength (header.octets ++ body) = header.contentLen.toNat := by
  have hlength : header.octets.length = recordLayerHeaderSize := header.length_octets
  have hfield : header.octets.drop (recordLayerHeaderSize - 2) = writeU16 header.contentLen := by
    simp only [RecordLayerHeader.octets, recordLayerHeaderSize, List.drop_succ_cons]
    exact List.drop_left' (by simp)
  rw [contentLength, ← hlength, List.take_left, hlength, hfield, writeU16, ofBeBytes_beBytes]
  exact Nat.mod_eq_of_lt header.contentLen.toNat_lt

theorem framed_octets {header : RecordLayerHeader} {body : Bytes}
    (hlength : header.contentLen.toNat = body.length) : Framed (header.octets ++ body) where
  header := by
    rw [List.length_append, RecordLayerHeader.length_octets]
    exact Nat.le_add_right _ _
  length := by
    rw [contentLength_octets, List.length_append, RecordLayerHeader.length_octets, hlength]

/-- A framed record in front of the rest of a datagram is split off. -/
theorem unpackDatagram_append {record rest : Bytes} (hframed : Framed record)
    (hlong : recordLayerHeaderSize < (record ++ rest).length) :
    unpackDatagram (record ++ rest) = (record :: ·) <$> unpackDatagram rest := by
  have hne : record ++ rest ≠ [] := by
    intro hnil
    rw [hnil, List.length_nil] at hlong
    omega
  have hpkt : recordLayerHeaderSize + contentLength (record ++ rest) = record.length := by
    rw [contentLength_append rest hframed.header, ← hframed.length]
  rw [unpackDatagram, if_neg hne, if_neg (Nat.not_le.mpr hlong)]
  simp only [hpkt]
  rw [if_neg (by simp), List.drop_left, List.take_left]
  cases unpackDatagram rest <;> rfl

/-- The contents of the last record are not empty. -/
def EndsFull (records : List Bytes) : Prop :=
  ∀ last ∈ records.getLast?, recordLayerHeaderSize < last.length

theorem endsFull_cons {record second : Bytes} {rest : List Bytes} :
    EndsFull (record :: second :: rest) ↔ EndsFull (second :: rest) := by
  rw [EndsFull, List.getLast?_cons_cons, EndsFull]

theorem unpackDatagram_flatten {records : List Bytes} (hframed : ∀ record ∈ records, Framed record)
    (hlast : EndsFull records) : unpackDatagram records.flatten = .ok records := by
  induction records with
  | nil => rw [List.flatten_nil, unpackDatagram, if_pos rfl]
  | cons record rest ih =>
      rw [List.forall_mem_cons] at hframed
      have hheader := hframed.1.header
      cases rest with
      | nil =>
          have hlong : recordLayerHeaderSize < record.length := hlast record rfl
          rw [List.flatten_cons, unpackDatagram_append hframed.1 (by simpa using hlong),
            ih hframed.2 (by rintro last hnone; cases hnone)]
          rfl
      | cons second rest =>
          have hsecond := (hframed.2 second List.mem_cons_self).header
          have hlong : recordLayerHeaderSize < (record ++ (second :: rest).flatten).length := by
            simp only [recordLayerHeaderSize, List.flatten_cons, List.length_append] at *
            omega
          rw [List.flatten_cons, unpackDatagram_append hframed.1 hlong,
            ih hframed.2 (endsFull_cons.mp hlast)]
          rfl

/-- A datagram of one record. -/
theorem unpackDatagram_singleton {record : Bytes} (hframed : Framed record)
    (hlong : recordLayerHeaderSize < record.length) : unpackDatagram record = .ok [record] := by
  have hall : ∀ other ∈ [record], Framed other := by
    rw [List.forall_mem_singleton]
    exact hframed
  have hlast : EndsFull [record] := by
    rintro last ⟨⟩
    exact hlong
  simpa using unpackDatagram_flatten hall hlast

/-- **What `unpack_datagram` accepts.**  The records that come out are the datagram cut into
framed records, of which the last one is not empty; every such row of records comes out. -/
theorem unpackDatagram_eq_ok_iff (buf : Bytes) (records : List Bytes) :
    unpackDatagram buf = .ok records ↔
      records.flatten = buf ∧ (∀ record ∈ records, Framed record) ∧ EndsFull records := by
  constructor
  · intro hunpack
    fun_induction unpackDatagram buf generalizing records with
    | case1 =>
        cases hunpack
        exact ⟨rfl, by simp, by rintro last hnone; cases hnone⟩
    | case2 => cases hunpack
    | case3 => cases hunpack
    | case4 buf hne hlong pktLen hfits ih =>
        cases hrest : unpackDatagram (buf.drop pktLen) with
        | error fault =>
            rw [hrest] at hunpack
            cases hunpack
        | ok out =>
            rw [hrest] at hunpack
            cases hunpack
            obtain ⟨hflatten, hframed, hlast⟩ := ih out hrest
            have hlength : (buf.take pktLen).length = pktLen := by
              rw [List.length_take]
              omega
            have hfirst : Framed (buf.take pktLen) := by
              refine ⟨by rw [hlength]; exact Nat.le_add_right _ _, ?_⟩
              rw [hlength, contentLength_take (Nat.le_add_right _ _)]
            refine ⟨?_, List.forall_mem_cons.mpr ⟨hfirst, hframed⟩, ?_⟩
            · rw [List.flatten_cons, hflatten, List.take_append_drop]
            · cases out with
              | nil =>
                  -- the last record is the whole of what was left
                  have hwhole : buf.length ≤ pktLen := by
                    rw [List.flatten_nil] at hflatten
                    exact List.drop_eq_nil_iff.mp hflatten.symm
                  intro last hsome
                  obtain rfl : buf.take pktLen = last := by simpa using hsome
                  rw [hlength]
                  omega
              | cons second rest => exact endsFull_cons.mpr hlast
  · rintro ⟨rfl, hframed, hlast⟩
    exact unpackDatagram_flatten hframed hlast

/-- An empty record is let through in front of another one, but not at the end. -/
example :
    unpackDatagram ([23, 254, 253, 0, 0, 0, 0, 0, 0, 0, 1, 0, 0] ++
        [20, 254, 253, 0, 0, 0, 0, 0, 0, 0, 2, 0, 1, 1]) =
      .ok [[23, 254, 253, 0, 0, 0, 0, 0, 0, 0, 1, 0, 0],
        [20, 254, 253, 0, 0, 0, 0, 0, 0, 0, 2, 0, 1, 1]] ∧
    unpackDatagram [23, 254, 253, 0, 0, 0, 0, 0, 0, 0, 1, 0, 0] =
      .error (.err .errInvalidPacketLength) := by
  simp [unpackDatagram, contentLength, recordLayerHeaderSize, ofBeBytes]

/-! ## What is put together -/

/-- A group of records that may share a datagram: a single one, or so few that they are
shorter than the limit. -/
def Shares (maximumTransmissionUnit : ℕ) (group : List Bytes) : Prop :=
  group.length = 1 ∨ group.flatten.length < maximumTransmissionUnit

/-- The datagrams of the loop are groups of records: those that are full, and the current
one, which is empty only before the first record. -/
structure Packed (mtu : ℕ) (packed : List Bytes × Bytes) (full : List (List Bytes))
    (current : List Bytes) : Prop where
  full_eq : packed.1 = full.map List.flatten
  current_eq : packed.2 = current.flatten
  closed : ∀ group ∈ full, group ≠ [] ∧ Shares mtu group
  opened : current = [] ∨ packed.2 ≠ [] ∧ Shares mtu current

/-- One record more goes to the end of the groups. -/
theorem Packed.step {mtu : ℕ} {packed : List Bytes × Bytes} {full : List (List Bytes)}
    {current : List Bytes} (hpacked : Packed mtu packed full current) {record : Bytes}
    (hrecord : record ≠ []) :
    ∃ full' current', Packed mtu (compactStep mtu packed record) full' current' ∧
      current' ≠ [] ∧ full'.flatten ++ current' = full.flatten ++ current ++ [record] := by
  by_cases hflush : packed.2 ≠ [] ∧ mtu ≤ packed.2.length + record.length
  · -- the current datagram is closed and a new one begun
    have hcurrent : current ≠ [] := by
      rintro rfl
      exact hflush.1 hpacked.current_eq
    have hshares := (hpacked.opened.resolve_left hcurrent).2
    refine ⟨full ++ [current], [record], ?_, List.cons_ne_nil _ _, by simp⟩
    rw [compactStep, if_pos hflush]
    refine ⟨by simp [hpacked.full_eq, hpacked.current_eq], by simp, ?_, .inr ⟨hrecord, .inl rfl⟩⟩
    rw [List.forall_mem_append, List.forall_mem_singleton]
    exact ⟨hpacked.closed, hcurrent, hshares⟩
  · refine ⟨full, current ++ [record], ?_, by simp, by simp⟩
    rw [compactStep, if_neg hflush]
    refine ⟨hpacked.full_eq, by simp [hpacked.current_eq], hpacked.closed, .inr ⟨by simp [hrecord], ?_⟩⟩
    rcases hpacked.opened with rfl | ⟨hne, -⟩
    · exact .inl rfl
    · have hlt : packed.2.length + record.length < mtu := by
        by_contra hge
        exact hflush ⟨hne, Nat.le_of_not_lt hge⟩
      refine .inr ?_
      rw [List.flatten_append, List.flatten_singleton, ← hpacked.current_eq, List.length_append]
      exact hlt

/-- The loop cuts the records into groups and keeps their order. -/
theorem Packed.foldl {mtu : ℕ} {packed : List Bytes × Bytes} {full : List (List Bytes)}
    {current : List Bytes} (hpacked : Packed mtu packed full current) {rawPackets : List Bytes}
    (hne : ∀ record ∈ rawPackets, record ≠ []) (hsome : current ≠ [] ∨ rawPackets ≠ []) :
    ∃ groups last, Packed mtu (rawPackets.foldl (compactStep mtu) packed) groups last ∧
      last ≠ [] ∧ groups.flatten ++ last = full.flatten ++ current ++ rawPackets := by
  induction rawPackets generalizing packed full current with
  | nil => exact ⟨full, current, hpacked, hsome.resolve_right (fun h => h rfl), by simp⟩
  | cons record rest ih =>
      rw [List.forall_mem_cons] at hne
      obtain ⟨full', current', hstep, hcurrent, hflatten⟩ := hpacked.step hne.1
      obtain ⟨groups, last, hfold, hlast, hall⟩ := ih hstep hne.2 (.inl hcurrent)
      refine ⟨groups, last, hfold, hlast, ?_⟩
      rw [hall, hflatten]
      simp

/-- The datagrams are the groups, each in one piece. -/
theorem exists_groups_compactRawPackets (mtu : ℕ) {rawPackets : List Bytes}
    (hsome : rawPackets ≠ []) (hne : ∀ record ∈ rawPackets, record ≠ []) :
    ∃ groups : List (List Bytes), compactRawPackets rawPackets mtu = groups.map List.flatten ∧
      groups.flatten = rawPackets ∧ ∀ group ∈ groups, group ≠ [] ∧ Shares mtu group := by
  obtain ⟨full, last, hpacked, hlast, hflatten⟩ :=
    (Packed.mk rfl rfl (by simp) (.inl rfl) : Packed mtu ([], []) [] []).foldl hne (.inr hsome)
  refine ⟨full ++ [last], ?_, by simpa using hflatten, ?_⟩
  · simp only [compactRawPackets, hpacked.full_eq, hpacked.current_eq, List.map_append,
      List.map_cons, List.map_nil]
  · rw [List.forall_mem_append, List.forall_mem_singleton]
    exact ⟨hpacked.closed, hlast, (hpacked.opened.resolve_left hlast).2⟩

/-- A record as it is sent: framed, and not empty. -/
def Sendable (record : Bytes) : Prop :=
  Framed record ∧ recordLayerHeaderSize < record.length

theorem Sendable.ne_nil {record : Bytes} (hsendable : Sendable record) : record ≠ [] := by
  rintro rfl
  have hlong := hsendable.2
  rw [List.length_nil] at hlong
  omega

theorem unpackDatagram_group {group : List Bytes} (hgroup : ∀ record ∈ group, Sendable record) :
    unpackDatagram group.flatten = .ok group := by
  refine unpackDatagram_flatten (fun record hrecord => (hgroup record hrecord).1) ?_
  intro last hlast
  exact (hgroup last (List.mem_of_getLast? hlast)).2

theorem mapM_unpackDatagram {groups : List (List Bytes)}
    (hgroups : ∀ group ∈ groups, ∀ record ∈ group, Sendable record) :
    (groups.map List.flatten).mapM unpackDatagram = .ok groups := by
  induction groups with
  | nil => rfl
  | cons group rest ih =>
      rw [List.forall_mem_cons] at hgroups
      rw [List.map_cons, List.mapM_cons, unpackDatagram_group hgroups.1, ih hgroups.2]
      rfl

/-- **Packing and unpacking.**  The datagrams that `compact_raw_packets` makes of non-empty
records are taken apart into the same records in the same order.  A datagram with more than
one record is shorter than the maximum transmission unit. -/
theorem unpack_compactRawPackets (mtu : ℕ) {rawPackets : List Bytes} (hsome : rawPackets ≠ [])
    (hframed : ∀ record ∈ rawPackets, Framed record ∧ recordLayerHeaderSize < record.length) :
    ∃ groups, (compactRawPackets rawPackets mtu).mapM unpackDatagram = .ok groups ∧
      groups.flatten = rawPackets ∧
      ∀ group ∈ groups, group ≠ [] ∧
        (1 < group.length → group.flatten.length < mtu) := by
  obtain ⟨groups, hcompact, hflatten, hgroups⟩ := exists_groups_compactRawPackets mtu hsome
    fun record hrecord => Sendable.ne_nil (hframed record hrecord)
  refine ⟨groups, ?_, hflatten, fun group hgroup => ?_⟩
  · rw [hcompact]
    refine mapM_unpackDatagram fun group hgroup record hrecord => hframed record ?_
    rw [← hflatten]
    exact List.mem_flatten_of_mem hgroup hrecord
  · obtain ⟨hne, hshares⟩ := hgroups group hgroup
    exact ⟨hne, fun hmany => hshares.resolve_left (by omega)⟩

/-- Three records under a limit that two of them fill. -/
theorem unpack_compactRawPackets_three :
    ∃ groups, (compactRawPackets (List.replicate 3
        [20, 254, 253, 0, 0, 0, 0, 0, 0, 0, 1, 0, 1, 1]) 29).mapM unpackDatagram = .ok groups ∧
      groups.flatten = List.replicate 3 [20, 254, 253, 0, 0, 0, 0, 0, 0, 0, 1, 0, 1, 1] ∧
      ∀ group ∈ groups, group ≠ [] ∧ (1 < group.length → group.flatten.length < 29) := by
  refine unpack_compactRawPackets 29 (by decide) ?_
  intro record hrecord
  obtain rfl := List.eq_of_mem_replicate hrecord
  exact ⟨⟨by decide, by decide⟩, by decide⟩

end AutonomiWebrtc.Dtls
