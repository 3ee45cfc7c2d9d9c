import Ct.Ldd.RingBufferRestart
import Ct.Ccutils.UtableRuns
import Ct.Ccutils.UfileScan
import Ct.Cctools.FilesyncRuns
import Ct.Cctools.MainLoopRuns
import Ct.Geye.SinajsTotal
import Ct.Geye.SinajsRefresh
import Ct.Ccutils.NetChunks
import Ct.Geye.MarketErrors
import Ct.Geye.SinajsBounds
import Ct.Geye.ParserLoad
import Ct.Uart.UartRuns
import Ct.Ccutils.DbSchema
import Ct.Tushare.SyncRepeats
import Ct.Shell.ShellBuffer
import Ct.Stocks.DbIfStored
import Ct.Ccutils.UfileUnreadable
import Ct.Geye.ParserReject
import Ct.Geye.Colors
import Ct.S5pv210.NfStorage
import Ct.S5pv210.TimerRuns
import Ct.Ldd.GlobalmemRuns
import Ct.Flex.SymbolMain
import Ct.Flex.CalcDerivations
import Ct.Deamon.MailboxRuns
import Ct.Ccutils.UtableHeap
import Ct.Ccutils.NetHeader
import Ct.Ccutils.DbCheck
import Ct.Tushare.MydbColumns
import Ct.S5pv210.ParseArguments
import Ct.S5pv210.GetstrEcho
import Ct.S5pv210.PrintfVerbatim
import Ct.S5pv210.Devmem
import Ct.S5pv210.I2cRuns
import Ct.S5pv210.Display
import Ct.S5pv210.TimerInit
import Ct.SimpleCodec.Base64
import Ct.Algo.Bisearch
import Ct.Geye.Calc
import Ct.Uart.ModtaxiInside
import Ct.Dealfile.LoadRuns
import Ct.Algo.Gcd
import Ct.S5pv210.RegistryHeap
import Ct.Printf.SlibRuns
import Ct.Copy.CopyLayout
import Ct.Flex.CalcAccepts
import Ct.Flex.AstRuns
import Ct.Lib.RoundCipher
import Ct.Openssl.AesCbc
import Ct.Openssl.Base64Runs
import Ct.Linux.TimeInit
import Ct.Linux.MallocRuns
