import Serial2Ethernet.User.Decoding
import Serial2Ethernet.User.Resync
import Serial2Ethernet.User.Bridge
import Serial2Ethernet.User.RemoteConfig
import Serial2Ethernet.Hardware.UdpInterface
import Serial2Ethernet.Hardware.ConfigStore
import Serial2Ethernet.Http.Reach
import Serial2Ethernet.Http.Boot
import Serial2Ethernet.User.LinkLoss
import Serial2Ethernet.Hardware.LwipComm
import Serial2Ethernet.Hardware.EthTx
import Serial2Ethernet.Hardware.EthRx
import Serial2Ethernet.Hardware.ConsoleLines
import Serial2Ethernet.System.MsgFifo
import Serial2Ethernet.User.TestUart
import Serial2Ethernet.Http.Stored
import Serial2Ethernet.Http.Ranges
import Serial2Ethernet.User.TimerStart
import Serial2Ethernet.Hardware.Periodic
import Serial2Ethernet.Hardware.ConsoleHanded
import Serial2Ethernet.Hardware.UdpSend
import Serial2Ethernet.Hardware.FlashWrite
import Serial2Ethernet.Lib.Slots
import Serial2Ethernet.Http.Fs
import Serial2Ethernet.Lib.Scanner
import Serial2Ethernet.Http.Ssi
import Serial2Ethernet.Http.SendData
import Serial2Ethernet.Http.Sending
import Serial2Ethernet.Http.ParseRequest
import Serial2Ethernet.Http.Server
import Serial2Ethernet.Http.Callback
import Serial2Ethernet.Http.Connections
import Serial2Ethernet.Http.Pages
import Serial2Ethernet.Http.Lookup
import Serial2Ethernet.Http.Closing
import Serial2Ethernet.Http.RequestLine
import Serial2Ethernet.Http.Query
import Serial2Ethernet.Lib.Trace
import Serial2Ethernet.Http.Calls
import Serial2Ethernet.Http.Site
import Serial2Ethernet.Http.Requests
import Serial2Ethernet.Http.Submit
import Serial2Ethernet.User.Device
