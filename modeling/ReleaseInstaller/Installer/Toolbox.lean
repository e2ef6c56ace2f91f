import ReleaseInstaller.Installer.Basic

/-! The shell functions that every installer brings along. -/
namespace ReleaseInstaller.Installer

def toolboxHeading : List Line :=
  fixed [
    "",
    "cat /dev/null <<EOF",
    "------------------------------------------------------------------------",
    "portable posix shell functions",
    "------------------------------------------------------------------------",
    "EOF"]

def logging : List Line :=
  fixed [
    "is_command() \x7b",
    "  command -v \"$1\" >/dev/null",
    "\x7d",
    "echoerr() \x7b",
    "  echo \"$@\" 1>&2",
    "\x7d",
    "_logp=6",
    "log_set_priority() \x7b",
    "  _logp=\"$1\"",
    "\x7d",
    "log_priority() \x7b",
    "  if test -z \"$1\"; then",
    "    echo \"$_logp\"",
    "    return",
    "  fi",
    "  [ \"$1\" -le \"$_logp\" ]",
    "\x7d",
    "log_tag() \x7b",
    "  case $1 in",
    "    0) echo \"emerg\" ;;",
    "    1) echo \"alert\" ;;",
    "    2) echo \"crit\" ;;",
    "    3) echo \"err\" ;;",
    "    4) echo \"warning\" ;;",
    "    5) echo \"notice\" ;;",
    "    6) echo \"info\" ;;",
    "    7) echo \"debug\" ;;",
    "    *) echo \"$1\" ;;",
    "  esac",
    "\x7d",
    "log_debug() \x7b",
    "  log_priority 7 || return 0",
    "  echoerr \"$(log_prefix)\" \"$(log_tag 7)\" \"$@\"",
    "\x7d",
    "log_info() \x7b",
    "  log_priority 6 || return 0",
    "  echoerr \"$(log_prefix)\" \"$(log_tag 6)\" \"$@\"",
    "\x7d",
    "log_err() \x7b",
    "  log_priority 3 || return 0",
    "  echoerr \"$(log_prefix)\" \"$(log_tag 3)\" \"$@\"",
    "\x7d",
    "log_crit() \x7b",
    "  log_priority 2 || return 0",
    "  echoerr \"$(log_prefix)\" \"$(log_tag 2)\" \"$@\"",
    "\x7d"]

/-- What the machine calls its system and its architecture, in the names of the builds. -/
def detection : List Line :=
  fixed [
    "uname_os() \x7b",
    "  os=$(uname -s | tr '[:upper:]' '[:lower:]')",
    "  case \"$os\" in",
    "    cygwin_nt*) os=\"windows\" ;;",
    "    mingw*) os=\"windows\" ;;",
    "    msys_nt*) os=\"windows\" ;;",
    "  esac",
    "  echo \"$os\"",
    "\x7d",
    "uname_arch() \x7b",
    "  arch=$(uname -m)",
    "  case $arch in",
    "    x86_64) arch=\"amd64\" ;;",
    "    x86) arch=\"386\" ;;",
    "    i686) arch=\"386\" ;;",
    "    i386) arch=\"386\" ;;",
    "    aarch64) arch=\"arm64\" ;;",
    "    armv5*) arch=\"armv5\" ;;",
    "    armv6*) arch=\"armv6\" ;;",
    "    armv7*) arch=\"armv7\" ;;",
    "  esac",
    "  echo \"$\x7barch\x7d\"",
    "\x7d"]

def knownNames : List Line :=
  fixed [
    "uname_os_check() \x7b",
    "  os=$1",
    "  case \"$os\" in",
    "    android) return 0 ;;",
    "    darwin) return 0 ;;",
    "    dragonfly) return 0 ;;",
    "    freebsd) return 0 ;;",
    "    linux) return 0 ;;",
    "    nacl) return 0 ;;",
    "    netbsd) return 0 ;;",
    "    openbsd) return 0 ;;",
    "    plan9) return 0 ;;",
    "    solaris) return 0 ;;",
    "    windows) return 0 ;;",
    "  esac",
    "  log_crit \"uname_os_check '$(uname -s)' got converted to '$os' which is not a GOOS value. Please file bug at https://github.com/binfetch/binfetch/issues/new\"",
    "  return 1",
    "\x7d",
    "uname_arch_check() \x7b",
    "  arch=$1",
    "  case \"$arch\" in",
    "    386) return 0 ;;",
    "    amd64) return 0 ;;",
    "    arm64) return 0 ;;",
    "    armv5) return 0 ;;",
    "    armv6) return 0 ;;",
    "    armv7) return 0 ;;",
    "    ppc64) return 0 ;;",
    "    ppc64le) return 0 ;;",
    "    mips) return 0 ;;",
    "    mipsle) return 0 ;;",
    "    mips64) return 0 ;;",
    "    mips64le) return 0 ;;",
    "    s390x) return 0 ;;",
    "    riscv64) return 0 ;;",
    "    amd64p32) return 0 ;;",
    "  esac",
    "  log_crit \"uname_arch_check '$(uname -m)' got converted to '$arch' which is not a GOARCH value.  Please file bug report at https://github.com/binfetch/binfetch/issues/new\"",
    "  return 1",
    "\x7d"]

def unpacking : List Line :=
  fixed [
    "untar() \x7b",
    "  tarball=$1",
    "  case \"$\x7btarball\x7d\" in",
    "    *.tar.gz | *.tgz) tar --no-same-owner -xzf \"$\x7btarball\x7d\" ;;",
    "    *.tar) tar --no-same-owner -xf \"$\x7btarball\x7d\" ;;",
    "    *.zip) unzip -q \"$\x7btarball\x7d\" ;;",
    "    *)",
    "      log_err \"untar unknown archive format for $\x7btarball\x7d\"",
    "      return 1",
    "      ;;",
    "  esac",
    "\x7d",
    "mktmpdir() \x7b",
    "  mktemp -d 2>/dev/null || mktemp -d -t binfetch",
    "\x7d"]

def downloading : List Line :=
  fixed [
    "http_download_curl() \x7b",
    "  local_file=$1",
    "  source_url=$2",
    "  header=$3",
    "  if [ -z \"$header\" ]; then",
    "    code=$(curl -w '%\x7bhttp_code\x7d' -sL -o \"$local_file\" \"$source_url\")",
    "  else",
    "    code=$(curl -w '%\x7bhttp_code\x7d' -sL -H \"$header\" -o \"$local_file\" \"$source_url\")",
    "  fi",
    "  if [ \"$code\" != \"200\" ]; then",
    "    log_debug \"http_download_curl received HTTP status $code\"",
    "    return 1",
    "  fi",
    "  return 0",
    "\x7d",
    "http_download_wget() \x7b",
    "  local_file=$1",
    "  source_url=$2",
    "  header=$3",
    "  if [ -z \"$header\" ]; then",
    "    wget -q -O \"$local_file\" \"$source_url\"",
    "  else",
    "    wget -q --header \"$header\" -O \"$local_file\" \"$source_url\"",
    "  fi",
    "\x7d",
    "http_download() \x7b",
    "  log_debug \"http_download $2\"",
    "  if is_command curl; then",
    "    http_download_curl \"$@\"",
    "    return",
    "  elif is_command wget; then",
    "    http_download_wget \"$@\"",
    "    return",
    "  fi",
    "  log_crit \"http_download unable to find wget or curl\"",
    "  return 1",
    "\x7d",
    "http_copy() \x7b",
    "  tmp=$(mktemp)",
    "  http_download \"$\x7btmp\x7d\" \"$1\" \"$2\" || return 1",
    "  body=$(cat \"$tmp\")",
    "  rm -f \"$\x7btmp\x7d\"",
    "  echo \"$body\"",
    "\x7d"]

def releaseLookup : List Line :=
  fixed [
    "github_release() \x7b",
    "  owner_repo=$1",
    "  version=$2",
    "  test -z \"$version\" && version=\"latest\"",
    "  giturl=\"https://github.com/$\x7bowner_repo\x7d/releases/$\x7bversion\x7d\"",
    "  json=$(http_copy \"$giturl\" \"Accept:application/json\")",
    "  test -z \"$json\" && return 1",
    "  version=$(echo \"$json\" | tr -s '\\n' ' ' | sed 's/.*\"tag_name\":\"//' | sed 's/\".*//')",
    "  test -z \"$version\" && return 1",
    "  echo \"$version\"",
    "\x7d"]

def hashing : List Line :=
  fixed [
    "hash_sha256() \x7b",
    "  TARGET=$\x7b1:-/dev/stdin\x7d",
    "  if is_command gsha256sum; then",
    "    hash=$(gsha256sum \"$TARGET\") || return 1",
    "    echo \"$hash\" | cut -d ' ' -f 1",
    "  elif is_command sha256sum; then",
    "    hash=$(sha256sum \"$TARGET\") || return 1",
    "    echo \"$hash\" | cut -d ' ' -f 1",
    "  elif is_command shasum; then",
    "    hash=$(shasum -a 256 \"$TARGET\" 2>/dev/null) || return 1",
    "    echo \"$hash\" | cut -d ' ' -f 1",
    "  elif is_command openssl; then",
    "    hash=$(openssl dgst -sha256 \"$TARGET\") || return 1",
    "    echo \"$hash\" | cut -d ' ' -f 2",
    "  else",
    "    log_crit \"hash_sha256 unable to find command to compute sha-256 hash\"",
    "    return 1",
    "  fi",
    "\x7d",
    "hash_sha256_verify() \x7b",
    "  TARGET=$1",
    "  checksums=$2",
    "  if [ -z \"$checksums\" ]; then",
    "    log_err \"hash_sha256_verify checksum file not specified in arg2\"",
    "    return 1",
    "  fi",
    "  BASENAME=$\x7bTARGET##*/\x7d",
    "  want=$(grep \"$\x7bBASENAME\x7d\" \"$\x7bchecksums\x7d\" 2>/dev/null | tr '\\t' ' ' | cut -d ' ' -f 1)",
    "  if [ -z \"$want\" ]; then",
    "    log_err \"hash_sha256_verify unable to find checksum for '$\x7bTARGET\x7d' in '$\x7bchecksums\x7d'\"",
    "    return 1",
    "  fi",
    "  got=$(hash_sha256 \"$TARGET\")",
    "  if [ \"$want\" != \"$got\" ]; then",
    "    log_err \"hash_sha256_verify checksum for '$TARGET' did not verify $\x7bwant\x7d vs $got\"",
    "    return 1",
    "  fi",
    "\x7d"]

def toolboxEnd : List Line :=
  fixed [
    "cat /dev/null <<EOF",
    "------------------------------------------------------------------------",
    "End of functions",
    "------------------------------------------------------------------------",
    "EOF",
    ""]

def toolbox : List Line :=
  toolboxHeading ++ logging ++ detection ++ knownNames ++ unpacking ++ downloading ++
    releaseLookup ++ hashing ++ toolboxEnd

end ReleaseInstaller.Installer
