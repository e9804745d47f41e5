import ZoneTables.Proofs.Tzif.File

/-!
# Reading well-formed zone files

Each reader finds at its place what was written there: fields, types, a header, a block. A
well-formed file therefore gives the transitions that it tells, without duplicates
(`readTransitions_bytes`). A file that ends before its block does is cut off in a header or in the
block (`readTransitions_take`).
-/

namespace ZoneTables.Tzif

open Bytes

variable {timeSize size : Nat} {version : UInt8} {c : Content timeSize} {f : File}
variable {bs front part back names : Bytes} {position : Int} {types : List NamedType}

/-! ## Fields -/

theorem readField_of_eq (hbs : bs = front ++ (part ++ back)) (hposition : position = front.length)
    (hsize : size = part.length) : readField bs position size = .ok part := by
  subst hbs hposition hsize
  rw [readField, field?_append]

theorem slice_of_eq {last : Int} (hbs : bs = front ++ (part ++ back))
    (hposition : position = front.length) (hlast : last = position + part.length) :
    slice bs position last = part := by
  subst hbs hlast hposition
  exact slice_append front part back

theorem decode_toUTF8 (text : String) : Text.Utf8.decode text.toUTF8.data.toList = .ok text := by
  have hvalid : String.fromUTF8? ⟨text.toUTF8.data.toList.toArray⟩ = some text := by
    simp only [Array.toArray_toList, String.fromUTF8?, String.toUTF8_eq_toByteArray,
      dif_pos text.isValidUTF8]
    rfl
  rw [Text.Utf8.decode, hvalid]

/-! ## Types -/

@[simp] theorem NamedType.length_bytes (t : NamedType) : t.bytes.length = 6 := by
  rw [NamedType.bytes, List.length_append, length_ofInt]
  rfl

theorem NamedType.IsWellFormed.ofBytes {t : NamedType} (h : t.IsWellFormed names) :
    (⟨toInt (t.bytes.take 4), t.bytes.getD 4 0 != 0, (t.bytes.getD 5 0).toNat⟩ : LocalType) =
      t.toLocalType := by
  have hoffset : toInt (t.bytes.take 4) = t.utcOffset := by
    rw [NamedType.bytes, List.take_left' (length_ofInt 4 _), toInt_ofInt h.fits]
  have hflag : t.bytes.getD 4 0 = if t.isDst then 1 else 0 := by simp [NamedType.bytes]
  have hindex : t.bytes.getD 5 0 = UInt8.ofNat t.nameIndex := by simp [NamedType.bytes]
  rw [hoffset, hflag, hindex, UInt8.toNat_ofNat', Nat.mod_eq_of_lt h.nameIndex_lt]
  have hdst : ((if t.isDst then 1 else 0 : UInt8) != 0) = t.isDst := by cases t.isDst <;> rfl
  rw [hdst]

theorem readTypes_of_eq (htypes : ∀ t ∈ types, t.IsWellFormed names)
    (hbs : bs = front ++ (types.flatMap NamedType.bytes ++ back))
    (hposition : position = front.length) :
    readTypes bs position types.length = .ok (types.map (·.toLocalType)) := by
  induction types generalizing front position with
  | nil => rfl
  | cons t types ih =>
    obtain ⟨ht, hrest⟩ := List.forall_mem_cons.1 htypes
    rw [List.flatMap_cons, List.append_assoc] at hbs
    have hread : readField bs position 6 = .ok t.bytes := readField_of_eq hbs hposition (by simp)
    have hafter : bs = (front ++ t.bytes) ++ (types.flatMap NamedType.bytes ++ back) := by
      rw [hbs, List.append_assoc]
    have htail : readTypes bs (position + 6) types.length = .ok (types.map (·.toLocalType)) :=
      ih hrest hafter (by simp [hposition])
    rw [List.length_cons, readTypes, hread]
    show (readTypes bs (position + 6) types.length >>= _) = _
    rw [htail, List.map_cons, ← ht.ofBytes]
    rfl

theorem Spells.takeWhile_drop {index : Nat} {text : String} (h : Spells names index text) :
    (names.drop index).takeWhile (· != 0) = text.toUTF8.data.toList := by
  obtain ⟨hzero, rest, hrest⟩ := h
  have hall : ∀ b ∈ text.toUTF8.data.toList, (b != 0) = true := by
    intro b hb
    rw [bne_iff_ne]
    rintro rfl
    exact hzero hb
  rw [← hrest, List.append_assoc, List.takeWhile_append_of_pos hall]
  simp

/-! ## Headers -/

namespace Content

/-- What a header says. -/
def toHeader (version : UInt8) (c : Content timeSize) : Header where
  version := version
  isutcnt := c.utcIndicators.length
  isstdcnt := c.standardIndicators.length
  leapcnt := c.leaps.length
  timecnt := c.entries.length
  typecnt := c.types.length
  charcnt := c.names.length

@[simp] theorem length_header (version : UInt8) (c : Content timeSize) :
    (c.header version).length = headerSize := by
  simp [header, magicBytes, counts, headerSize]

theorem length_bytes (version : UInt8) (c : Content timeSize) :
    (c.bytes version).length = headerSize + c.data.length := by
  rw [bytes, List.length_append, length_header]

theorem HasLayout.count_eq (h : c.HasLayout) {i n : Nat} (hn : c.counts[i]? = some n) :
    toInt (((c.header version).drop (20 + 4 * i)).take 4) = n := by
  have hfront : (magicBytes ++ version :: c.reserved.toList).length = 20 := by simp [magicBytes]
  rw [header, ← List.drop_drop, List.drop_left' hfront, Nat.mul_comm,
    take_drop_flatMap (fun n _ => length_ofInt 4 (n : Nat)) hn]
  exact toInt_ofInt (h.counts_fit n (List.mem_of_getElem? hn))

theorem HasLayout.ofBytes_header (h : c.HasLayout) :
    Header.ofBytes (c.header version) = c.toHeader version := by
  unfold Header.ofBytes toHeader
  simp only [Header.mk.injEq]
  exact ⟨rfl, h.count_eq rfl, h.count_eq rfl, h.count_eq rfl, h.count_eq rfl, h.count_eq rfl,
    h.count_eq rfl⟩

theorem HasLayout.readHeader_of_eq (h : c.HasLayout)
    (hbs : bs = front ++ (c.header version ++ back)) (hposition : position = front.length) :
    readHeader bs position = .ok (c.toHeader version) := by
  have hslice : slice bs position (position + headerSize) = c.header version :=
    slice_of_eq hbs hposition (by rw [length_header])
  have hmagic : (c.header version).take 4 = magicBytes := rfl
  have htypes : (c.toHeader version).typecnt ≠ 0 := by
    have := List.length_pos_iff.2 h.types_ne_nil
    simp only [toHeader]
    omega
  unfold readHeader
  simp only [hslice, length_header, ne_eq, not_true_eq_false, if_false, hmagic, h.ofBytes_header,
    if_neg htypes]

end Content

theorem readHeader_of_length_lt {position : Nat} (h : bs.length < position + headerSize) :
    readHeader bs position = .error .headerTruncated := by
  have hslice := length_slice_le bs position (position + headerSize)
  have hne : (slice bs position (position + headerSize : Nat)).length ≠ headerSize := by
    unfold headerSize at *
    omega
  unfold readHeader
  exact if_pos hne

/-! ## Blocks -/

namespace Content

@[simp] theorem length_timeBytes (c : Content timeSize) :
    c.timeBytes.length = c.entries.length * timeSize :=
  length_flatMap_of_size fun e _ => length_ofInt timeSize e.1

@[simp] theorem length_indexBytes (c : Content timeSize) :
    c.indexBytes.length = c.entries.length := List.length_map _

@[simp] theorem length_typeBytes (c : Content timeSize) :
    c.typeBytes.length = c.types.length * 6 :=
  length_flatMap_of_size fun t _ => t.length_bytes

@[simp] theorem length_leapBytes (c : Content timeSize) :
    c.leapBytes.length = c.leaps.length * (timeSize + 4) :=
  length_flatMap_of_size fun l _ => by simp

theorem blockSize_toHeader (version : UInt8) (c : Content timeSize) :
    (c.toHeader version).blockSize timeSize = c.data.length := by
  simp only [Header.blockSize, toHeader, data, List.length_append, length_timeBytes,
    length_indexBytes, length_typeBytes, length_leapBytes, Int.natCast_add, Int.natCast_mul,
    Int.cast_ofNat_Int]
  omega

/-- The block as the reader has it. -/
def block (c : Content timeSize) : Block where
  times := c.entries.map Prod.fst
  typeIndexes := c.entries.map fun e => e.2
  types := c.types.map (·.toLocalType)
  names := c.names

namespace IsWellFormed

theorem groups_timeBytes (h : c.IsWellFormed) (htimeSize : 0 < timeSize) :
    (groups timeSize c.timeBytes).map toInt = c.entries.map Prod.fst := by
  rw [timeBytes, groups_flatMap htimeSize fun e _ => length_ofInt timeSize _, List.map_map]
  exact List.map_congr_left fun e he => toInt_ofInt (h.times_fit e he)

theorem toNat_indexBytes (h : c.IsWellFormed) :
    c.indexBytes.map (·.toNat) = c.entries.map fun e => (e.2 : Nat) := by
  rw [indexBytes, List.map_map]
  refine List.map_congr_left fun e _ => ?_
  have hlt := Nat.lt_of_lt_of_le e.2.isLt h.length_types_le
  rw [Function.comp_apply, UInt8.toNat_ofNat', Nat.mod_eq_of_lt hlt]

/-- **A block is read as it was written**, wherever it stands. -/
theorem readBlock_of_eq (h : c.IsWellFormed) (htimeSize : 0 < timeSize)
    (hbs : bs = front ++ (c.data ++ back)) (hposition : position = front.length) :
    readBlock bs position (c.toHeader version) timeSize = .ok c.block := by
  have hlength : ¬(bs.length : Int) < position + (c.toHeader version).blockSize timeSize := by
    rw [blockSize_toHeader, hbs, hposition, List.length_append, List.length_append]
    omega
  have hcount : ¬(c.toHeader version).timecnt < 0 := Int.not_lt.2 (Int.natCast_nonneg _)
  -- Each part is read with the parts before it taken as what stands in front.
  simp only [data, List.append_assoc] at hbs
  have htimes : readField bs position (c.entries.length * timeSize) = .ok c.timeBytes :=
    readField_of_eq hbs hposition (by simp)
  rw [← List.append_assoc] at hbs
  have hindexes : readField bs (position + c.entries.length * timeSize) c.entries.length =
      .ok c.indexBytes :=
    readField_of_eq hbs (by simp [hposition]) (by simp)
  rw [← List.append_assoc] at hbs
  have htypes : readTypes bs (position + c.entries.length * timeSize + c.entries.length)
      c.types.length = .ok (c.types.map (·.toLocalType)) :=
    readTypes_of_eq h.types hbs (by simp [hposition, Int.add_assoc])
  rw [← List.append_assoc] at hbs
  have hnames : slice bs
      (position + c.entries.length * timeSize + c.entries.length + c.types.length * 6)
      (position + c.entries.length * timeSize + c.entries.length + c.types.length * 6 +
        c.names.length) = c.names :=
    slice_of_eq hbs (by simp [hposition, Int.add_assoc]) rfl
  have htimecnt : (c.toHeader version).timecnt.toNat = c.entries.length := rfl
  have htypecnt : (c.toHeader version).typecnt.toNat = c.types.length := rfl
  have hcharcnt : (c.toHeader version).charcnt = c.names.length := rfl
  unfold readBlock
  simp only [if_neg hlength, if_neg hcount, htimecnt, htypecnt, hcharcnt, htimes, hindexes]
  show (readTypes bs _ _ >>= _) = _
  rw [htypes]
  show Except.ok (Block.mk _ _ _ _) = _
  rw [List.length_map, hnames, h.groups_timeBytes htimeSize, h.toNat_indexBytes]
  rfl

theorem transition_block (h : c.IsWellFormed) (time : Int) (i : Fin c.types.length) :
    c.block.transition time i = .ok ((c.types.get i).transition time) := by
  have htype : c.block.types[(i : Nat)]? = some (c.types.get i).toLocalType := by simp [block]
  have hname : c.block.name (c.types.get i).nameIndex =
      .ok (abbreviation (c.types.get i).text.toList) := by
    have hspells := (h.types (c.types.get i) (List.get_mem c.types i)).spells
    unfold Block.name
    rw [block, hspells.takeWhile_drop, decode_toUTF8]
  unfold Block.transition
  simp only [htype]
  show (c.block.name (c.types.get i).nameIndex >>= _) = _
  rw [hname]
  rfl

theorem transition_block_zero (h : c.IsWellFormed) (time : Int) :
    (c.block.transition time 0).map ([·]) = .ok ((c.types.take 1).map (·.transition time)) := by
  have hpos := List.length_pos_iff.2 h.types_ne_nil
  have htake : c.types.take 1 = [c.types.get ⟨0, hpos⟩] := by
    rw [List.take_one, List.head?_eq_getElem?, List.getElem?_eq_getElem hpos]
    rfl
  rw [h.transition_block time ⟨0, hpos⟩, htake]
  rfl

/-- **A block tells the transitions that were written.** -/
theorem transitions_block (h : c.IsWellFormed) (marker : Int) :
    c.block.transitions marker = .ok (c.timeline marker) := by
  have hentries : (c.block.times.zip c.block.typeIndexes).mapM
      (fun p => c.block.transition (if p.1 = marker then beginningOfTime else p.1) p.2) =
      .ok (c.entries.map (c.entryTransition marker)) := by
    show ((c.entries.map Prod.fst).zip (c.entries.map fun e => (e.2 : Nat))).mapM _ = _
    rw [List.zip_map', List.mapM_map]
    exact (congrArg (c.entries.mapM ·) (funext fun e => h.transition_block _ e.2)).trans
      List.mapM_pure
  have hhead : c.block.times.head? = c.entries.head?.map Prod.fst := List.head?_map
  have htransitions : c.block.transitions marker = (do
      let first ← if c.entries.head?.map Prod.fst = some marker then pure [] else
        (c.block.transition beginningOfTime 0).map ([·])
      let rest ← (c.block.times.zip c.block.typeIndexes).mapM fun p =>
        c.block.transition (if p.1 = marker then beginningOfTime else p.1) p.2
      return first ++ rest) := by
    rw [← hhead]
    rfl
  rw [htransitions, hentries, timeline]
  split
  · rfl
  · rw [h.transition_block_zero]
    rfl

end IsWellFormed

theorem readBlock_of_length_lt (version : UInt8) (c : Content timeSize)
    (hlt : bs.length < position + c.data.length) :
    readBlock bs position (c.toHeader version) timeSize = .error .blockTruncated := by
  rw [← blockSize_toHeader version c] at hlt
  unfold readBlock
  rw [if_pos hlt]
  rfl

end Content

/-! ## Files -/

theorem readTransitions_first {c : Content 4} (h : c.HasLayout)
    (hbs : bs = [] ++ (c.header 0 ++ back)) :
    readTransitions bs = (do
      let block ← readBlock bs headerSize (c.toHeader 0) 4
      return removeDuplicates (← block.transitions firstMarker)) := by
  have hheader : readHeader bs 0 = .ok (c.toHeader 0) := h.readHeader_of_eq hbs rfl
  unfold readTransitions
  rw [hheader]
  rfl

/-- After the header of a file of a later version its block is passed over, and what follows is
read. -/
theorem readTransitions_later {hidden : Content 4} (hversion : version ≠ 0) (h : hidden.HasLayout)
    (hbs : bs = [] ++ (hidden.header version ++ back)) :
    readTransitions bs = (do
      let second ← readHeader bs (hidden.bytes version).length
      let block ← readBlock bs ((hidden.bytes version).length + headerSize) second 8
      return removeDuplicates (← block.transitions laterMarker)) := by
  have hheader : readHeader bs 0 = .ok (hidden.toHeader version) := h.readHeader_of_eq hbs rfl
  have hposition : (headerSize : Int) + (hidden.toHeader version).blockSize 4 =
      (hidden.bytes version).length := by
    have hsize := Content.blockSize_toHeader version hidden
    rw [Content.length_bytes]
    omega
  have hlater : (hidden.toHeader version).version ≠ 0 := hversion
  unfold readTransitions
  simp only [hheader, bind, Except.bind, if_neg hlater, hposition]
  cases readHeader bs (hidden.bytes version).length <;> rfl

/-- **A well-formed file gives the transitions that it tells.** -/
theorem File.IsWellFormed.readTransitions_bytes (h : f.IsWellFormed) :
    readTransitions f.bytes = .ok (removeDuplicates f.timeline) := by
  cases f with
  | first c =>
    have hc : c.IsWellFormed := h
    have hdata : (first c).bytes = c.header 0 ++ (c.data ++ []) := by
      rw [List.append_nil, bytes, Content.bytes]
    have hblock : readBlock (first c).bytes headerSize (c.toHeader 0) 4 = .ok c.block :=
      hc.readBlock_of_eq (by decide) hdata (by rw [Content.length_header])
    rw [readTransitions_first hc.toHasLayout hdata, hblock]
    show (do return removeDuplicates (← c.block.transitions firstMarker)) = _
    rw [hc.transitions_block]
    rfl
  | later version hversion hidden c footer =>
    obtain ⟨hhidden, hc⟩ : hidden.HasLayout ∧ c.IsWellFormed := h
    generalize hbs : (later version hversion hidden c footer).bytes = bs
    have hfirst : bs = [] ++ (hidden.header version ++ (hidden.data ++
        (c.bytes version ++ footer))) := by
      rw [← hbs, bytes, Content.bytes, List.append_assoc, List.nil_append]
    have hsecond : bs = hidden.bytes version ++ (c.header version ++ (c.data ++ footer)) := by
      rw [← hbs, bytes, Content.bytes, Content.bytes, List.append_assoc (c.header version)]
    have hdata : bs = (hidden.bytes version ++ c.header version) ++ (c.data ++ footer) := by
      rw [hsecond, List.append_assoc]
    have hblock : readBlock bs ((hidden.bytes version).length + headerSize) (c.toHeader version) 8 =
        .ok c.block :=
      hc.readBlock_of_eq (by decide) hdata (by simp)
    rw [readTransitions_later hversion hhidden hfirst, hc.readHeader_of_eq hsecond rfl]
    show (readBlock _ _ _ _ >>= _) = _
    rw [hblock]
    show (do return removeDuplicates (← c.block.transitions laterMarker)) = _
    rw [hc.transitions_block]
    rfl

theorem exists_take_append {n : Nat} (h : front.length ≤ n) (back : Bytes) :
    ∃ rest, (front ++ back).take n = front ++ rest :=
  ⟨back.take (n - front.length), by rw [List.take_append, List.take_of_length_le h]⟩

theorem readTransitions_take_first {c : Content 4} {n : Nat} (h : c.HasLayout)
    (hfirst : headerSize ≤ n) (hn : n < (c.bytes 0).length) :
    readTransitions ((c.bytes 0).take n) = .error .blockTruncated := by
  have hlength := List.length_take_le n (c.bytes 0)
  rw [← Content.length_header 0 c] at hfirst
  obtain ⟨rest, htake⟩ := exists_take_append hfirst c.data
  have hbs : (c.bytes 0).take n = [] ++ (c.header 0 ++ rest) := htake
  rw [Content.length_bytes] at hn
  rw [readTransitions_first h hbs, Content.readBlock_of_length_lt 0 c (by omega)]
  rfl

theorem readTransitions_take_later {hidden : Content 4} {c : Content 8} {footer : Bytes} {n : Nat}
    (hversion : version ≠ 0) (hhidden : hidden.HasLayout) (h : c.HasLayout)
    (hfirst : headerSize ≤ n)
    (hn : n < (hidden.bytes version).length + (c.bytes version).length) :
    readTransitions ((hidden.bytes version ++ (c.bytes version ++ footer)).take n) =
        .error .headerTruncated ∨
      readTransitions ((hidden.bytes version ++ (c.bytes version ++ footer)).take n) =
        .error .blockTruncated := by
  have hlength := List.length_take_le n (hidden.bytes version ++ (c.bytes version ++ footer))
  rw [← Content.length_header version hidden] at hfirst
  obtain ⟨rest, htake⟩ :=
    exists_take_append hfirst (hidden.data ++ (c.bytes version ++ footer))
  have hbs : (hidden.bytes version ++ (c.bytes version ++ footer)).take n =
      [] ++ (hidden.header version ++ rest) := by
    rw [Content.bytes, List.append_assoc, htake, List.nil_append]
  rw [readTransitions_later hversion hhidden hbs]
  by_cases hsecond : n < (hidden.bytes version).length + headerSize
  · left
    rw [readHeader_of_length_lt (by omega)]
    rfl
  · have hheaders : (hidden.bytes version ++ c.header version).length ≤ n := by
      rw [List.length_append, Content.length_header]
      omega
    obtain ⟨rest, htake⟩ := exists_take_append hheaders (c.data ++ footer)
    have hbs : (hidden.bytes version ++ (c.bytes version ++ footer)).take n =
        hidden.bytes version ++ (c.header version ++ rest) := by
      simp only [Content.bytes, List.append_assoc] at htake ⊢
      exact htake
    rw [Content.length_bytes version c] at hn
    right
    rw [h.readHeader_of_eq hbs rfl]
    show (readBlock _ _ _ _ >>= _) = _
    rw [Content.readBlock_of_length_lt version c (by omega)]
    rfl

/-- **A file cut off before the end of its block is no zone file.** -/
theorem File.IsWellFormed.readTransitions_take (h : f.IsWellFormed) {n : Nat} (hn : n < f.readEnd) :
    readTransitions (f.bytes.take n) = .error .headerTruncated ∨
      readTransitions (f.bytes.take n) = .error .blockTruncated := by
  by_cases hfirst : n < headerSize
  · have hlength := List.length_take_le n f.bytes
    have hheader : readHeader (f.bytes.take n) (0 : Nat) = .error .headerTruncated :=
      readHeader_of_length_lt (by omega)
    left
    unfold readTransitions
    rw [show (0 : Int) = (0 : Nat) from rfl, hheader]
    rfl
  · rw [Nat.not_lt] at hfirst
    cases f with
    | first c => exact Or.inr (readTransitions_take_first h.toHasLayout hfirst hn)
    | later version hversion hidden c footer =>
      exact readTransitions_take_later hversion h.1 h.2.toHasLayout hfirst hn

theorem File.IsWellFormed.decode_eq (h : f.IsWellFormed) (zone : Option String) :
    decode zone f.bytes = .ok (.ofTransitions zone (removeDuplicates f.timeline)) := by
  rw [decode, h.readTransitions_bytes]
  rfl

/-- **Well-formed files are read in full or not at all.** From the whole file come the transitions
that it tells, without duplicates, and a part that ends before its block does is rejected as cut
off. -/
theorem File.IsWellFormed.decode_bytes (h : f.IsWellFormed) (zone : Option String) :
    decode zone f.bytes = .ok (.ofTransitions zone (removeDuplicates f.timeline)) ∧
      ∀ n < f.readEnd, decode zone (f.bytes.take n) = .error .headerTruncated ∨
        decode zone (f.bytes.take n) = .error .blockTruncated := by
  refine ⟨h.decode_eq zone, fun n hn => ?_⟩
  unfold decode
  rcases h.readTransitions_take hn with htake | htake
  · rw [htake]
    exact Or.inl rfl
  · rw [htake]
    exact Or.inr rfl

/-- A file with the eastern daylight saving of 2007, from the beginning of time on. One of its names
is the end of another text, and one is a number. -/
def easternFile : File :=
  .later 0x32 versionTwo_ne_zero .minimal
    { reserved := .replicate 15 0
      types := [⟨⟨-18000, false, 1⟩, "ST"⟩, ⟨⟨-14400, true, 4⟩, "EDT"⟩, ⟨⟨-18000, false, 8⟩, "-05"⟩]
      names := "EST".toUTF8.data.toList ++ 0 :: "EDT".toUTF8.data.toList ++
        0 :: "-05".toUTF8.data.toList ++ [0]
      entries := [(laterMarker, ⟨0, by decide⟩), (1173596400, ⟨1, by decide⟩),
        (1194156000, ⟨2, by decide⟩)]
      leaps := [(78796800, 1)]
      standardIndicators := [1, 0, 0]
      utcIndicators := [] }
    "\nEST5EDT,M3.2.0,M11.1.0\n".toUTF8.data.toList

theorem decode_bytes_eastern :
    easternFile.IsWellFormed ∧
      decode (some "Test/East") easternFile.bytes = .ok (.ofTransitions (some "Test/East")
        [⟨beginningOfTime, -18000, 0, some "ST", none⟩,
          ⟨1173596400, -14400, 3600, some "EDT", none⟩,
          ⟨1194156000, -18000, 0, none, none⟩]) ∧
      ∀ n < 167, decode (some "Test/East") (easternFile.bytes.take n) = .error .headerTruncated ∨
        decode (some "Test/East") (easternFile.bytes.take n) = .error .blockTruncated := by
  have hformed : easternFile.IsWellFormed := by decide
  obtain ⟨hdecode, htake⟩ := hformed.decode_bytes (some "Test/East")
  have htimeline : removeDuplicates easternFile.timeline =
      [⟨beginningOfTime, -18000, 0, some "ST", none⟩,
        ⟨1173596400, -14400, 3600, some "EDT", none⟩,
        ⟨1194156000, -18000, 0, none, none⟩] := by decide
  rw [htimeline] at hdecode
  exact ⟨hformed, hdecode, fun n hn => htake n (Nat.lt_of_lt_of_le hn (by decide))⟩

end ZoneTables.Tzif
