import BootableRecovery.Libc
import BootableRecovery.Bootloader
import BootableRecovery.GetArgs
import BootableRecovery.Codec
import BootableRecovery.Sources
import BootableRecovery.FileBrowser
import BootableRecovery.Shell
import BootableRecovery.Tools
import BootableRecovery.FileOptions
import BootableRecovery.Completion
import BootableRecovery.Main
import BootableRecovery.Boot
import BootableRecovery.Restart
import BootableRecovery.Menu
import BootableRecovery.Chooser
import BootableRecovery.Actions
import BootableRecovery.Browse
import BootableRecovery.Menus
import BootableRecovery.Accounting
import BootableRecovery.Options
import BootableRecovery.OptionsSafety
