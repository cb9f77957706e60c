import SuiteDriver.Locale

/-!
# Messages

Everything the program says in the reader's language, and the texts for it in each language. A text
holds places of the form `%{name}`. They are filled in one pass from left to right, so a value
is shown as it is, whatever it contains.

`Message.text` is what `Console`, `Fault` and `CommandLine/Help` show.
-/

namespace SuiteDriver

/-! ## 1. Texts with places -/

namespace Template

/-- What stands at a place: its value, or the place itself if it has none. -/
def valueAt (values : List (String × String)) (name : List Char) : List Char :=
  match values.lookup (String.ofList name) with
  | some v => v.toList
  | none => '%' :: '\x7b' :: name ++ ['\x7d']

/-- Fills the places from the middle of a text on; the name so far is given inside a place. -/
def fillFrom (values : List (String × String)) : Option (List Char) → List Char → List Char
  | none, [] => []
  | none, '%' :: '\x7b' :: r => fillFrom values (some []) r
  | none, c :: r => c :: fillFrom values none r
  | some name, [] => '%' :: '\x7b' :: name
  | some name, c :: r =>
    if c = '\x7d' then valueAt values name ++ fillFrom values none r
    else fillFrom values (some (name ++ [c])) r

/-- The text with its places filled. -/
def fill (template : String) (values : List (String × String)) : String :=
  String.ofList (fillFrom values none template.toList)

end Template

/-! ## 2. What can be said -/

/-- A message with the values in it. -/
inductive Message
  | about
  | languageHelp
  | configHelp
  | projectDirHelp
  | variantHelp
  | dryRunHelp
  | verboseHelp
  | initAbout
  | forceHelp
  | projectRoot (path : String)
  | configLoaded (path : String)
  | configDefaults
  | configReadFailed (path : String)
  | configParseFailed (path : String)
  | projectDirNotFound (path : String)
  | projectDirExpandFailed (path : String)
  | variantSelected (variant target classpath mode : String)
  | spawnThenWaitName
  | blockingName
  | dryRunBanner
  | buildLabel
  | suiteLabel (name : String)
  | stepStarting (label command : String)
  | stepExited (label code duration : String)
  | stepTerminated (label duration : String)
  | artifactMissing (path : String)
  | launchFailed (label command : String)
  | runComplete (count : String)
  | configExists (path : String)
  | configWritten (path : String)
  | configWriteFailed (path : String)
deriving DecidableEq, Repr

namespace Message

/-- The values in a message, by the names of their places. -/
def values : Message → List (String × String)
  | projectRoot path | configLoaded path | configReadFailed path | configParseFailed path
  | projectDirNotFound path | projectDirExpandFailed path | artifactMissing path
  | configExists path | configWritten path | configWriteFailed path => [("path", path)]
  | variantSelected variant target classpath mode =>
    [("variant", variant), ("target", target), ("classpath", classpath), ("mode", mode)]
  | suiteLabel name => [("name", name)]
  | stepStarting label command | launchFailed label command =>
    [("label", label), ("command", command)]
  | stepExited label code duration =>
    [("label", label), ("code", code), ("duration", duration)]
  | stepTerminated label duration => [("label", label), ("duration", duration)]
  | runComplete count => [("count", count)]
  | _ => []

/-! ## 3. The texts -/

/-- The texts in English. -/
def english : Message → String
  | about => "Builds the SST artifact and runs the JUnit suites in order inside the JVM."
  | languageHelp => "Set the display language (e.g., en, zh-CN)"
  | configHelp =>
    "Path to the driver configuration file [default: <PROJECT_DIR>/TestDriver.toml]"
  | projectDirHelp => "Directory in which the build tool and the suites are launched"
  | variantHelp => "Which build variant to run"
  | dryRunHelp => "Print the planned commands without launching anything"
  | verboseHelp => "Enable debug logging on stderr"
  | initAbout => "Write a default TestDriver.toml into the project directory"
  | forceHelp => "Overwrite an existing configuration file"
  | projectRoot _ => "Project root: %\x7bpath\x7d"
  | configLoaded _ => "Loaded configuration from: %\x7bpath\x7d"
  | configDefaults => "No configuration file found, using built-in defaults."
  | configReadFailed _ => "Failed to read configuration file: %\x7bpath\x7d"
  | configParseFailed _ => "Failed to parse configuration file: %\x7bpath\x7d"
  | projectDirNotFound _ => "Project directory not found: %\x7bpath\x7d"
  | projectDirExpandFailed _ => "Failed to expand project directory: %\x7bpath\x7d"
  | variantSelected _ _ _ _ =>
    "Variant: %\x7bvariant\x7d (build target '%\x7btarget\x7d', " ++
      "classpath '%\x7bclasspath\x7d', %\x7bmode\x7d)"
  | spawnThenWaitName => "spawn then wait"
  | blockingName => "blocking"
  | dryRunBanner => "--- Planned Commands (dry run) ---"
  | buildLabel => "Build"
  | suiteLabel _ => "Suite %\x7bname\x7d"
  | stepStarting _ _ => "%\x7blabel\x7d: %\x7bcommand\x7d"
  | stepExited _ _ _ =>
    "%\x7blabel\x7d exited with code %\x7bcode\x7d after %\x7bduration\x7ds"
  | stepTerminated _ _ =>
    "%\x7blabel\x7d was terminated without an exit code after %\x7bduration\x7ds"
  | artifactMissing _ =>
    "Artifact '%\x7bpath\x7d' was not found after the build step; " ++
      "the suites will run anyway."
  | launchFailed _ _ => "Failed to launch %\x7blabel\x7d: %\x7bcommand\x7d"
  | runComplete _ => "--- Test driver finished: %\x7bcount\x7d processes launched ---"
  | configExists _ =>
    "Configuration file already exists: %\x7bpath\x7d (use --force to overwrite)"
  | configWritten _ => "Wrote default configuration to: %\x7bpath\x7d"
  | configWriteFailed _ => "Failed to write configuration file: %\x7bpath\x7d"

/-- The texts in Chinese. -/
def chinese : Message → String
  | about => "构建 SST 产物，并在 JVM 中按顺序运行 JUnit 测试套件。"
  | languageHelp => "设置显示语言（例如 en, zh-CN）"
  | configHelp => "驱动配置文件路径 [默认: <PROJECT_DIR>/TestDriver.toml]"
  | projectDirHelp => "启动构建工具和测试套件的目录"
  | variantHelp => "要运行的构建变体"
  | dryRunHelp => "仅打印计划执行的命令，不启动任何进程"
  | verboseHelp => "在 stderr 上启用调试日志"
  | initAbout => "在项目目录中写入默认的 TestDriver.toml"
  | forceHelp => "覆盖已存在的配置文件"
  | projectRoot _ => "项目根目录: %\x7bpath\x7d"
  | configLoaded _ => "已加载配置文件: %\x7bpath\x7d"
  | configDefaults => "未找到配置文件，使用内置默认值。"
  | configReadFailed _ => "读取配置文件失败: %\x7bpath\x7d"
  | configParseFailed _ => "解析配置文件失败: %\x7bpath\x7d"
  | projectDirNotFound _ => "未找到项目目录: %\x7bpath\x7d"
  | projectDirExpandFailed _ => "展开项目目录失败: %\x7bpath\x7d"
  | variantSelected _ _ _ _ =>
    "变体: %\x7bvariant\x7d（构建目标 '%\x7btarget\x7d'，" ++
      "类路径 '%\x7bclasspath\x7d'，%\x7bmode\x7d）"
  | spawnThenWaitName => "先派生后等待"
  | blockingName => "阻塞执行"
  | dryRunBanner => "--- 计划执行的命令（试运行） ---"
  | buildLabel => "构建"
  | suiteLabel _ => "测试套件 %\x7bname\x7d"
  | stepStarting _ _ => "%\x7blabel\x7d: %\x7bcommand\x7d"
  | stepExited _ _ _ =>
    "%\x7blabel\x7d 已退出，退出码 %\x7bcode\x7d，耗时 %\x7bduration\x7ds"
  | stepTerminated _ _ =>
    "%\x7blabel\x7d 在 %\x7bduration\x7ds 后被终止，没有退出码"
  | artifactMissing _ =>
    "构建步骤之后未找到产物 '%\x7bpath\x7d'；测试套件仍将继续运行。"
  | launchFailed _ _ => "启动 %\x7blabel\x7d 失败: %\x7bcommand\x7d"
  | runComplete _ => "--- 测试驱动结束: 共启动 %\x7bcount\x7d 个进程 ---"
  | configExists _ => "配置文件已存在: %\x7bpath\x7d（使用 --force 覆盖）"
  | configWritten _ => "已写入默认配置: %\x7bpath\x7d"
  | configWriteFailed _ => "写入配置文件失败: %\x7bpath\x7d"

/-- The text of a message, with its places open. -/
def template (m : Message) : Language → String
  | .english => m.english
  | .chinese => m.chinese

/-- A message in a language. -/
def text (language : Language) (m : Message) : String :=
  Template.fill (m.template language) m.values

end Message

end SuiteDriver
