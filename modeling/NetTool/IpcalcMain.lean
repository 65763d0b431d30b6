import NetTool.Ipcalc
import NetTool.Network

/-!
# The program `ipcalc`

`ipcalcMain` with what reads its arguments. The options are those `getopt_long` finds, in their
order, and the operands those it leaves. No result is undefined behaviour: a shift by as many bits
as an `int` has, or a null pointer printed as a string. The look-ups of the GeoIP database are
compiled out, and `netmaskStr` is never set.
-/

namespace NetTool

open Bytes CInt Fields

/-! ## Prefixes -/

def ERANGE : ℤ := 34

/-- What `strtol` takes in base 0: whether there is a minus, the base, the digits and the rest. -/
def numberItem (s : List UInt8) : Bool × ℕ × List UInt8 × List UInt8 :=
  let s := s.dropWhile isspace
  let t := if s.head? = some (ch '-') ∨ s.head? = some (ch '+') then s.tail else s
  let hex := t[0]? = some (ch '0') ∧ (t[1]? = some (ch 'x') ∨ t[1]? = some (ch 'X')) ∧
    (t[2]?.bind Hex.digit).isSome
  let base := if hex then 16 else if t[0]? = some (ch '0') then 8 else 10
  let u := if hex then t.drop 2 else t
  let isDigit := fun b => ((Hex.digit b).any (· < base) : Bool)
  (s.head? = some (ch '-'), base, u.takeWhile isDigit, u.dropWhile isDigit)

/-- `strtol` in base 0 before it is kept in a `long`. -/
def strtol_base0 (s : List UInt8) : ℤ :=
  let (minus, base, digits, _) := numberItem s
  let v : ℤ := (digits.foldl (fun v d => base * v + (Hex.digit d).getD 0) 0 : ℕ)
  if minus then -v else v

def safe_atoi (s : List UInt8) : Except ℤ ℤ :=
  let (_, _, digits, rest) := numberItem s
  let l := strtol_base0 s
  if l < -2 ^ 63 ∨ 2 ^ 63 ≤ l then .error (-ERANGE)
  else if digits = [] ∨ rest ≠ [] then .error (-EINVAL)
  else if i32 l ≠ l then .error (-ERANGE)
  else .ok l

/-- The prefix, or -1, and `*ipv6`. -/
def str_to_prefix (c : Libc) (ipv6 : Bool) (prefixStr : String) (fix : Bool) : ℤ × Bool :=
  let bits : Option ℤ :=
    if !ipv6 && '.' ∈ prefixStr.toList then some (ipv4_mask_to_int c prefixStr)
    else (safe_atoi (argBytes prefixStr)).toOption
  match bits with
  | none => (-1, ipv6)
  | some bits =>
    let ipv6 := ipv6 || (fix && 32 < bits)
    if bits < 0 ∨ (ipv6 ∧ 128 < bits) ∨ (¬ ipv6 ∧ 32 < bits) then (-1, ipv6) else (bits, ipv6)

/-! ## Addresses -/

def get_ip_address (c : Libc) (dns : Dns) (family : ℕ) (host : String) : Option String :=
  ((dns.getaddrinfo family host).find? fun rp => rp.1 = AF_INET ∨ rp.1 = AF_INET6).map
    fun rp => c.ntop rp.2

/-- What `clock_gettime` and `/dev/urandom` give. -/
structure Chance where
  tv_nsec : Option ℕ
  urandom : (n : ℕ) → Option (Vector UInt8 n)

/-- The address of `generate_ip_network`. -/
def private_addr (ipv6 : Bool) (bits : ℕ) (tv_nsec : ℕ) (chance : Chance) : Option (List UInt8) :=
  if ipv6 then
    (chance.urandom 15).map fun net => UInt8.ofNat (0xfc ||| (tv_nsec &&& 1)) :: net.toList
  else
    let c := tv_nsec % 4
    (chance.urandom 4).map fun bytes =>
      if 16 ≤ bits ∧ c < 2 then
        if c = 1 then [192, 168] ++ bytes.toList.drop 2
        else [172, UInt8.ofNat (16 ||| (tv_nsec >>> 4 &&& 0x0f))] ++ bytes.toList.drop 2
      else [10] ++ bytes.toList.drop 1

def generate_ip_network (c : Libc) (chance : Chance) (ipv6 : Bool) (bits : ℕ) : Option String :=
  chance.tv_nsec.bind fun tv_nsec =>
    (private_addr ipv6 bits tv_nsec chance).map fun net => c.ntop net ++ "/" ++ toString bits

/-! ## Options -/

inductive IpcalcOpt
  | check
  | random (optarg : String)
  | info
  | allinfo
  | class_prefix_
  | reverse
  | ipv4
  | ipv6
  | broadcast
  | hostname
  | lookup (optarg : String)
  | geoinfo
  | netmask
  | network
  | prefix_
  | minaddr
  | maxaddr
  | addresses
  | addrspace
  | silent
  | version
  | usage
  | help
  deriving DecidableEq

structure IpcalcOpts where
  flags : ℕ
  randomStr : Option String
  hostname : Option String
  familyIPv4 : Bool
  familyIPv6 : Bool
  doVersion : Bool
  beSilent : Bool

def IpcalcOpts.start : IpcalcOpts := ⟨0, none, none, false, false, false, false⟩

def IpcalcOpts.setFlag (o : IpcalcOpts) (flag : ℕ) : IpcalcOpts := { o with flags := o.flags ||| flag }

/-- The texts of `usage`. -/
def usage_lines (verbose : Bool) : List String :=
  if verbose then
    ["Usage: ipcalc [OPTION...]\n",
      "  -c, --check                     Validate IP address\n",
      "  -r, --random-private=PREFIX     Generate a random private IP network using\n",
      "                                  the provided prefix/netmask\n",
      "  -i, --info                      Print information on the provided IP address\n",
      "      --all-info                  Print verbose information on the provided IP\n",
      "                                  address\n",
      "      --reverse-dns               Print network in a the reverse DNS format\n",
      "  -4, --ipv4                      Explicitly specify the IPv4 address family\n",
      "  -6, --ipv6                      Explicitly specify the IPv6 address family\n",
      "\n",
      "Specific info options:\n",
      "  -b, --broadcast                 Display calculated broadcast address\n",
      "  -m, --netmask                   Display netmask for IP\n",
      "  -n, --network                   Display network address\n",
      "  -p, --prefix                    Display network prefix\n",
      "      --minaddr                   Display the minimum address in the network\n",
      "      --maxaddr                   Display the maximum address in the network\n",
      "      --addresses                 Display the maximum number of addresses in\n",
      "                                  the network\n",
      "      --addrspace                 Display the address space the network\n",
      "                                  resides on\n",
      "  -h, --hostname                  Show hostname determined via DNS\n",
      "  -o, --lookup-host=STRING        Show IP as determined via DNS\n",
      "\n",
      "Other options:\n",
      "      --class-prefix              When specified the default prefix will be determined\n",
      "                                  by the IPv4 address class\n",
      "  -s, --silent                    Don't ever display error messages\n",
      "  -v, --version                   Display program version\n",
      "  -?, --help                      Show this help message\n",
      "      --usage                     Display brief usage message\n"]
  else
    ["Usage: ipcalc [-46sv?] [-c|--check] [-r|--random-private=STRING] [-i|--info]\n",
      "        [--all-info] [-4|--ipv4] [-6|--ipv6] [-b|--broadcast]\n",
      "        [-h|--hostname] [-o|--lookup-host=STRING] [-g|--geoinfo]\n",
      "        [-m|--netmask] [-n|--network] [-p|--prefix] [--minaddr] [--maxaddr]\n",
      "        [--addresses] [--addrspace] [-s|--silent] [-v|--version]\n",
      "        [--reverse-dns] [--class-prefix]\n",
      "        [-?|--help] [--usage]\n"]

def usage (verbose : Bool) : List Ev := (usage_lines verbose).map fun line => .eprintf line []

/-- One round of the loop over the options, or what is printed before the program ends. -/
def IpcalcOpts.step (o : IpcalcOpts) : IpcalcOpt → Except (List Ev) IpcalcOpts
  | .check => .ok (o.setFlag FLAG_CHECK_ADDRESS)
  | .random optarg => .ok { o with randomStr := some optarg }
  | .info => .ok (o.setFlag FLAG_SHOW_INFO)
  | .allinfo => .ok (o.setFlag FLAG_SHOW_ALL_INFO)
  | .class_prefix_ => .ok (o.setFlag FLAG_ASSUME_CLASS_PREFIX)
  | .reverse => .ok (o.setFlag FLAG_SHOW_REVERSE)
  | .ipv4 => .ok { o with familyIPv4 := true }
  | .ipv6 => .ok { o with familyIPv6 := true }
  | .broadcast => .ok (o.setFlag FLAG_SHOW_BROADCAST)
  | .hostname => .ok (o.setFlag FLAG_RESOLVE_HOST)
  | .lookup optarg => .ok { o with hostname := some optarg }
  | .geoinfo => .ok (o.setFlag FLAG_SHOW_GEOIP)
  | .netmask => .ok (o.setFlag FLAG_SHOW_NETMASK)
  | .network => .ok (o.setFlag FLAG_SHOW_NETWORK)
  | .prefix_ => .ok (o.setFlag FLAG_SHOW_PREFIX)
  | .minaddr => .ok (o.setFlag FLAG_SHOW_MINADDR)
  | .maxaddr => .ok (o.setFlag FLAG_SHOW_MAXADDR)
  | .addresses => .ok (o.setFlag FLAG_SHOW_ADDRESSES)
  | .addrspace => .ok (o.setFlag FLAG_SHOW_ADDRSPACE)
  | .silent => .ok { o with beSilent := true }
  | .version => .ok { o with doVersion := true }
  | .usage => .error (NetTool.usage false)
  | .help => .error (NetTool.usage true)

/-! ## The report -/

def FLAGS_TO_IGNORE : ℕ := FLAG_GET_GEOIP ||| FLAG_ASSUME_CLASS_PREFIX ||| 1 <<< 16
def FLAGS_TO_IGNORE_MASK : ℕ := 0xffffffff ^^^ FLAGS_TO_IGNORE

def KBLUE : String := "\x1B[34m"
def KMAG : String := "\x1B[35m"
def KRESET : String := "\x1B[0m"

def color_printf (colors : Bool) (color title fmt : String) (args : List Arg) : List Ev :=
  [.printf title []] ++ (if colors then [.printf color []] else []) ++ [.printf fmt args] ++
    if colors then [.printf KRESET []] else []

section

variable (colors : Bool)

def default_printf : String → String → List Arg → List Ev := color_printf colors KBLUE
def dist_printf : String → String → List Arg → List Ev := color_printf colors KMAG

/-- What is printed of a text that may be missing. -/
def onSome (text : Option String) (print : String → List Ev) : List Ev := text.elim [] print

/-- What is printed with `FLAG_SHOW_INFO`. -/
def show_info (info : ip_info) (flags : ℕ) (familyIPv6 random : Bool) : List Ev :=
  let single_host : Bool :=
    (familyIPv6 && info.prefix_ = 128) || (!familyIPv6 && info.prefix_ = 32)
  (if (!random || single_host) && (single_host || info.network ≠ info.ip) then
    onSome info.expanded_ip (fun t => default_printf colors "Full Address:\t" "%s\n" [.str t]) ++
      default_printf colors "Address:\t" "%s\n" [.str info.ip]
  else []) ++
  (if !single_host then
    onSome info.expanded_network (fun t =>
      default_printf colors "Full Network:\t" "%s/%u\n" [.str t, .int info.prefix_]) ++
    default_printf colors "Network:\t" "%s/%u\n" [.str info.network, .int info.prefix_] ++
    default_printf colors "Netmask:\t" "%s = %u\n" [.str info.netmask, .int info.prefix_] ++
    onSome info.broadcast (fun t => default_printf colors "Broadcast:\t" "%s\n" [.str t])
  else []) ++
  (if flags &&& FLAG_SHOW_ALL_INFO = FLAG_SHOW_ALL_INFO then
    onSome info.reverse_dns (fun t => default_printf colors "Reverse DNS:\t" "%s\n" [.str t])
  else []) ++
  (if !single_host then [.printf "\n" []] else []) ++
  dist_printf colors "Address space:\t" "%s\n" [.str info.type] ++
  onSome info.class_ (fun t => dist_printf colors "Address class:\t" "%s\n" [.str t]) ++
  if !single_host then
    default_printf colors "HostMin:\t" "%s\n" [.str info.hostmin] ++
    default_printf colors "HostMax:\t" "%s\n" [.str info.hostmax] ++
    if familyIPv6 && info.prefix_ < 112 then
      default_printf colors "Hosts/Net:\t" "2^(%u) = %s\n"
        [.int (128 - info.prefix_), .str info.hosts]
    else default_printf colors "Hosts/Net:\t" "%s\n" [.str info.hosts]
  else []

end

/-- `strchr(text, ' ') != NULL`, with the text in quotes where there is a blank in it. -/
def quoted (fmt fmtQuoted text : String) : List Ev :=
  [.printf (if ' ' ∈ text.toList then fmtQuoted else fmt) [.str text]]

/-- What is printed without it, where a null string is printed as `(null)`. -/
def show_fields (info : ip_info) (flags : ℕ) (familyIPv6 : Bool) (ipStr : String) : List Ev :=
  let on (flag : ℕ) (evs : List Ev) : List Ev := if flags &&& flag ≠ 0 then evs else []
  on FLAG_SHOW_NETMASK [.printf "NETMASK=%s\n" [.str info.netmask]] ++
  on FLAG_SHOW_PREFIX [.printf "PREFIX=%u\n" [.int info.prefix_]] ++
  on FLAG_SHOW_BROADCAST (if !familyIPv6 then
    [.printf "BROADCAST=%s\n" [.str (info.broadcast.getD "(null)")]] else []) ++
  on FLAG_SHOW_NETWORK [.printf "NETWORK=%s\n" [.str info.network]] ++
  on FLAG_SHOW_REVERSE [.printf "REVERSEDNS=%s\n" [.str (info.reverse_dns.getD "(null)")]] ++
  on FLAG_SHOW_MINADDR [.printf "MINADDR=%s\n" [.str info.hostmin]] ++
  on FLAG_SHOW_MAXADDR [.printf "MAXADDR=%s\n" [.str info.hostmax]] ++
  on FLAG_SHOW_ADDRSPACE (quoted "ADDRSPACE=%s\n" "ADDRSPACE=\"%s\"\n" info.type) ++
  on FLAG_SHOW_ADDRESSES (quoted "ADDRESSES=%s\n" "ADDRESSES=\"%s\"\n" info.hosts) ++
  on FLAG_RESOLVE_HOST (onSome info.hostname (fun t => [.printf "HOSTNAME=%s\n" [.str t]])) ++
  on FLAG_RESOLVE_IP [.printf "ADDRESS=%s\n" [.str ipStr]]

/-! ## The program -/

/-- The text in front of the first `/` and the one behind it. -/
def splitSlash (s : String) : String × Option String :=
  if '/' ∈ s.toList then
    (String.ofList (s.toList.takeWhile (· ≠ '/')),
      some (String.ofList ((s.toList.dropWhile (· ≠ '/')).drop 1)))
  else (s, none)

def family_name (familyIPv6 : Bool) : String := if familyIPv6 then "IPv6" else "IPv4"

section

variable (c : Libc) (dns : Dns) (chance : Chance) (o : IpcalcOpts)

/-- Where the address comes from: its text, `familyIPv6` and the prefix so far. -/
def ipcalc_source (ipStr : Option String) : Except (List Ev) (String × Bool × ℤ) :=
  match o.hostname, o.randomStr, ipStr with
  | some _, some _, _ => .error (complain o.beSilent "ipcalc: you cannot mix these options\n" [])
  | none, none, none =>
    .error (if o.beSilent then []
      else .eprintf "ipcalc: ip address expected\n" [] :: usage true)
  | none, none, some ipStr => .ok (ipStr, o.familyIPv6, -1)
  | some hostname, none, _ =>
    let family :=
      if o.familyIPv6 then AF_INET6 else if o.familyIPv4 then AF_INET else AF_UNSPEC
    match get_ip_address c dns family hostname with
    | none =>
      .error (complain o.beSilent "ipcalc: could not resolve %s\n" [.str hostname])
    | some ipStr => .ok (ipStr, o.familyIPv6, -1)
  | none, some randomStr, _ =>
    match str_to_prefix c o.familyIPv6 randomStr true with
    | (bits, familyIPv6) =>
      if bits < 0 then
        .error (complain o.beSilent "ipcalc: bad %s prefix: %s\n"
          [.str (family_name familyIPv6), .str randomStr])
      else
        match generate_ip_network c chance familyIPv6 bits.toNat with
        | none =>
          .error (complain o.beSilent "ipcalc: cannot generate network with prefix: %u\n"
            [.int bits])
        | some ipStr => .ok (ipStr, familyIPv6, bits)

/-- The address, its family and its prefix, with that from the second operand or behind a `/`. -/
def ipcalc_prefix (ipStr : String) (familyIPv6 : Bool) (bits : ℤ) (chptr : Option String) :
    Except (List Ev) (String × Bool × ℤ) :=
  let familyIPv6 := familyIPv6 || (!o.familyIPv4 && ':' ∈ ipStr.toList)
  match familyIPv6, chptr with
  | true, some chptr =>
    .error (if o.beSilent then []
      else .eprintf "ipcalc: unexpected argument: %s\n" [.str chptr] :: usage true)
  | _, _ =>
    let (ipStr, prefixStr) :=
      match chptr with
      | some chptr => (ipStr, some chptr)
      | none => splitSlash ipStr
    match prefixStr with
    | none => .ok (ipStr, familyIPv6, bits)
    | some prefixStr =>
      let (bits, _) := str_to_prefix c familyIPv6 prefixStr false
      if bits < 0 then
        .error (complain o.beSilent "ipcalc: bad %s prefix: %s\n"
          [.str (family_name familyIPv6), .str prefixStr])
      else .ok (ipStr, familyIPv6, bits)

/-- What is printed of the report. -/
def ipcalc_show (isatty : Bool) (info : ip_info) (flags : ℕ) (familyIPv6 : Bool)
    (ipStr : String) : List Ev :=
  let flags := if flags &&& FLAGS_TO_IGNORE_MASK = 0 then flags ||| FLAG_SHOW_INFO else flags
  if flags &&& FLAG_SHOW_INFO ≠ 0 then
    show_info isatty info flags familyIPv6 o.randomStr.isSome
  else show_fields info flags familyIPv6 ipStr

/-- Behind the loop over the options, with at most two operands used. -/
def ipcalc_run (isatty : Bool) (operands : List String) : Option (ℤ × List Ev) :=
  if o.doVersion then some (0, [.printf "ipcalc %s\n" [.str "1.0"]])
  else if o.familyIPv6 && o.familyIPv4 then
    some (1, complain o.beSilent "ipcalc: you cannot specify both IPv4 and IPv6\n" [])
  else
    let flags := if o.hostname.isSome then o.flags ||| FLAG_RESOLVE_IP else o.flags
    match ipcalc_source c dns chance o operands[0]? with
    | .error evs => some (1, evs)
    | .ok (ipStr, familyIPv6, bits) =>
      match ipcalc_prefix c o ipStr familyIPv6 bits operands[1]? with
      | .error evs => some (1, evs)
      | .ok (ipStr, familyIPv6, bits) =>
        let info :=
          if familyIPv6 then some (get_ipv6_info c dns o.beSilent ipStr bits flags)
          else get_ipv4_info c dns o.beSilent ipStr bits flags
        match info with
        | none => none
        | some (.error evs) => some (1, evs)
        | some (.ok info) =>
          some (0, ipcalc_show o isatty info flags familyIPv6 ipStr)

end

def ipcalcMain (c : Libc) (dns : Dns) (chance : Chance) (isatty : Bool) (opts : List IpcalcOpt)
    (operands : List String) : Option (ℤ × List Ev) :=
  match opts.foldlM IpcalcOpts.step .start with
  | .error evs => some (0, evs)
  | .ok o => ipcalc_run c dns chance o isatty operands

end NetTool
